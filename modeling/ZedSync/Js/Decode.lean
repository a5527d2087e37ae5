import Mathlib.Algebra.Order.Ring.Rat
import Mathlib.Data.Rat.Cast.Order
import ZedSync.Clock
import ZedSync.Transports

/-!
What the two decoders of `sdk/src/transports/decode.mjs` let through, as
`compareHlc` and `Clock.observe` (`sdk/src/hlc.mjs`) meet it. `toHlc` fills in a counter
and an actor and `decodeSupabaseChange` takes the stamp it returns. `decodeBackendFrame`
only asks whether there is one and passes the change on as it came, so a counter may be
missing there, or be text. A change of either kind may also carry a counter that is
something else than a number.
-/

namespace ZedSync.Js

/-- A value as an operator meets it. -/
inductive Value where
  | undefined
  | nan
  | json (value : Json)

def Value.number (value : Rat) : Value := .json (.num value)

/-- What the operators make of operands that are not two numbers or two texts, and which
objects are the same one. Nothing is assumed of it. -/
structure Coercions where
  less : Value → Value → Bool
  atMost : Value → Value → Bool
  larger : Value → Value → Value
  plusOne : Value → Value
  identical : Json → Json → Bool

/-- The fields of a version, read as properties. -/
structure RawHlc where
  wallMs : Value
  counter : Value
  actor : Value

/-- A property of a parsed value. -/
def member (key : String) : Json → Value
  | .obj fields =>
      match Json.lookup key fields with
      | some value => .json value
      | none => .undefined
  | _ => .undefined

def RawHlc.ofJson (version : Json) : RawHlc :=
  { wallMs := member "wall_ms" version
    counter := member "counter" version
    actor := member "actor" version }

def RawHlc.ofDecoded (version : DecodedHlc) : RawHlc :=
  { wallMs := .number version.wallMs
    counter := .json version.counter
    actor := .json (.str version.actor) }

section Operators

variable (coercions : Coercions)

/-- `===`. -/
def Value.same : Value → Value → Bool
  | .undefined, .undefined => true
  | .json .null, .json .null => true
  | .json (.bool value), .json (.bool value') => value = value'
  | .json (.num value), .json (.num value') => value = value'
  | .json (.str value), .json (.str value') => value = value'
  | .json (.arr items), .json (.arr items') => coercions.identical (.arr items) (.arr items')
  | .json (.obj fields), .json (.obj fields') =>
      coercions.identical (.obj fields) (.obj fields')
  | _, _ => false

/-- `<`. -/
def Value.lt : Value → Value → Bool
  | .json (.num value), .json (.num value') => value < value'
  | .json (.str value), .json (.str value') => strLt value value'
  | value, value' => coercions.less value value'

/-- `<=`, which the clock applies to numbers. -/
def Value.le : Value → Value → Bool
  | .json (.num value), .json (.num value') => value ≤ value'
  | value, value' => coercions.atMost value value'

/-- `Math.max`. -/
def Value.max : Value → Value → Value
  | .json (.num value), .json (.num value') => .number (Max.max value value')
  | value, value' => coercions.larger value value'

/-- `value + 1`. -/
def Value.succ : Value → Value
  | .json (.num value) => .number (value + 1)
  | value => coercions.plusOne value

/-- `compareHlc` on whatever the fields hold. -/
def compareRaw (a b : RawHlc) : Int :=
  if !a.wallMs.same coercions b.wallMs then
    if a.wallMs.lt coercions b.wallMs then -1 else 1
  else if !a.counter.same coercions b.counter then
    if a.counter.lt coercions b.counter then -1 else 1
  else if a.actor.same coercions b.actor then 0
  else if a.actor.lt coercions b.actor then -1 else 1

/-- The fields of a clock that `observe` reads and writes. -/
structure LiveClock where
  wallMs : Value
  counter : Value

/-- `Clock.observe` on whatever the fields hold. -/
def observeRaw (clock : LiveClock) (remote : RawHlc) (nowMs : Rat) : LiveClock :=
  let now := Value.number nowMs
  let remoteOk := remote.wallMs.le coercions (.number (nowMs + maxDriftMs))
  let maxWall :=
    if remoteOk then now.max coercions (clock.wallMs.max coercions remote.wallMs)
    else now.max coercions clock.wallMs
  let counter :=
    if remoteOk && maxWall.same coercions clock.wallMs &&
        maxWall.same coercions remote.wallMs then
      (clock.counter.max coercions remote.counter).succ coercions
    else if maxWall.same coercions clock.wallMs then clock.counter.succ coercions
    else if remoteOk && maxWall.same coercions remote.wallMs then
      remote.counter.succ coercions
    else .number 0
  { wallMs := maxWall, counter := counter }

end Operators

section Decoders

-- `String(value)` of what is no text, `none` where the conversion throws.
variable (convert : Json → Option String)

/-- The texts of the conversions that do not throw. -/
def rendered (value : Json) : String := (convert value).getD ""

/-- Whether `String(value)` returns. -/
def converts : Json → Bool
  | .str _ => true
  | value => (convert value).isSome

/-- The value `toHlc` converts, where it comes to that. -/
def actorOf (version : Json) : Json :=
  match version with
  | .obj fields => nullish (Json.lookup "actor" fields) (.str "srv")
  | _ => .str "srv"

/-- `change.version`; a missing one is as unusable as `null`. -/
def versionOf : Json → Json
  | .obj fields => nullish (Json.lookup "version" fields) .null
  | _ => .null

/-- The changes `decodeBackendFrame` goes through. -/
def offered : Json → List Json
  | .obj frame =>
      match Json.lookup "event" frame, Json.lookup "changes" frame with
      | some (.str event), some (.arr changes) => if event = "zed:sync" then changes else []
      | _, _ => []
  | _ => []

/-- `changes.filter((c) => c && toHlc(c.version))`: `none` where a conversion throws. -/
def keepUsable : List Json → Option (List Json)
  | [] => some []
  | change :: rest =>
      match toHlc (rendered convert) (versionOf change) with
      | some _ =>
          if converts convert (actorOf (versionOf change)) then
            (keepUsable rest).map (change :: ·)
          else none
      | none => keepUsable rest

def decodeBackendFrame (frame : Json) : Option (List Json) := keepUsable convert (offered frame)

/-- The record a payload is about. -/
def supabaseRecord : Json → Option (List (String × Json))
  | .obj payload =>
      let isDelete : Bool := match Json.lookup "eventType" payload with
        | some (.str eventType) => eventType == "DELETE"
        | _ => false
      match Json.lookup (if isDelete then "old" else "new") payload with
      | some (.obj fields) => some fields
      | _ => none
  | _ => none

/-- The values `decodeSupabaseChange` converts to text once it has a version. -/
def supabaseConversions (fields : List (String × Json)) : List Json :=
  [actorOf (nullish (Json.lookup "sync_version" fields) .null),
    nullish (Json.lookup "id" fields) .null,
    nullish (Json.lookup "updated_at" fields) (.str "")]

/-- The stamps that reach the comparison and the clock, from frames and payloads. -/
inductive LetThrough (frames payloads : List Json) : RawHlc → Prop where
  | backend {frame change : Json} {changes : List Json} (hframe : frame ∈ frames)
      (hdecode : decodeBackendFrame convert frame = some changes) (hmem : change ∈ changes) :
      LetThrough frames payloads (RawHlc.ofJson (versionOf change))
  | supabase {payload : Json} {fields : List (String × Json)} {change : SupabaseChange}
      (hpayload : payload ∈ payloads)
      (hdecode : decodeSupabaseChange (rendered convert) payload = some change)
      (hrecord : supabaseRecord payload = some fields)
      (hconverts : (supabaseConversions fields).all (converts convert) = true) :
      LetThrough frames payloads (RawHlc.ofDecoded change.version)

end Decoders

/-- A numeric wall, a numeric counter and an actor that is text. -/
@[ext] structure NumericHlc where
  wallMs : Rat
  counter : Rat
  actor : String

def NumericHlc.raw (stamp : NumericHlc) : RawHlc :=
  { wallMs := .number stamp.wallMs
    counter := .number stamp.counter
    actor := .json (.str stamp.actor) }

def RawHlc.WellFormed (version : RawHlc) : Prop := ∃ stamp : NumericHlc, version = stamp.raw

/-- A numeric wall and a numeric counter. -/
def LiveClock.Numeric (clock : LiveClock) : Prop :=
  ∃ wallMs counter : Rat, clock = { wallMs := .number wallMs, counter := .number counter }

/-- Wall, then counter, then the actor's code units. -/
def NumericHlc.key (stamp : NumericHlc) : ℚ ×ₗ ℚ ×ₗ List ℕ :=
  toLex (stamp.wallMs, toLex (stamp.counter, utf16Units stamp.actor))

theorem NumericHlc.key_injective : Function.Injective NumericHlc.key := by
  intro a b h
  have h' : (a.wallMs, a.counter, utf16Units a.actor) =
      (b.wallMs, b.counter, utf16Units b.actor) := h
  simp only [Prod.mk.injEq] at h'
  exact NumericHlc.ext h'.1 h'.2.1 (utf16Units_injective h'.2.2)

theorem compareRaw_eq (coercions : Coercions) (a b : NumericHlc) :
    compareRaw coercions a.raw b.raw =
      Lexicographic.compareThree a.wallMs b.wallMs a.counter b.counter (utf16Units a.actor)
        (utf16Units b.actor) := by
  simp only [compareRaw, NumericHlc.raw, Value.number, Value.same, Value.lt, strLt,
    Lexicographic.compareThree, utf16Units_injective.eq_iff, decide_eq_true_eq,
    Bool.not_eq_true', decide_eq_false_iff_not, ne_eq]
  congr

theorem compareRaw_neg_iff (coercions : Coercions) (a b : NumericHlc) :
    compareRaw coercions a.raw b.raw < 0 ↔ a.key < b.key := by
  rw [compareRaw_eq, Lexicographic.compareThree_neg_iff]
  simp [NumericHlc.key, Prod.Lex.toLex_lt_toLex]

/-- A numeric stamp leaves a numeric clock. -/
theorem observeRaw_numeric (coercions : Coercions) {clock : LiveClock} (hclock : clock.Numeric)
    (remote : NumericHlc) (nowMs : Rat) :
    (observeRaw coercions clock remote.raw nowMs).Numeric := by
  obtain ⟨wallMs, counter, rfl⟩ := hclock
  simp only [observeRaw, NumericHlc.raw, Value.number, Value.le, Value.max]
  by_cases hle : remote.wallMs ≤ nowMs + maxDriftMs
  · simp only [hle, decide_true, if_true, Value.same, Value.succ]
    split_ifs <;> exact ⟨_, _, rfl⟩
  · simp only [hle, decide_false, Bool.false_eq_true, if_false, Value.same, Value.succ]
    split_ifs <;> exact ⟨_, _, rfl⟩

/-- A stamp of the wire, as the comparison reads it. -/
def ofHlc (stamp : Hlc) : NumericHlc :=
  { wallMs := stamp.wallMs, counter := stamp.counter, actor := stamp.actor }

/-- On the stamps of the wire this is the comparison of the other modules. -/
theorem compareRaw_ofHlc (coercions : Coercions) (a b : Hlc) :
    compareRaw coercions (ofHlc a).raw (ofHlc b).raw = compareHlc a b := by
  rw [compareRaw_eq, compareHlc_eq]
  simp only [Lexicographic.compareThree, ofHlc, ne_eq, Nat.cast_inj, Nat.cast_lt]
  congr

def LiveClock.ofClock (clock : Clock) : LiveClock :=
  { wallMs := .number clock.wallMs, counter := .number clock.counter }

/-- And on the stamps of the wire this is the clock of the other modules. -/
theorem observeRaw_ofHlc (coercions : Coercions) (clock : Clock) (remote : Hlc) (nowMs : Nat) :
    observeRaw coercions (.ofClock clock) (ofHlc remote).raw nowMs =
      .ofClock (observe clock remote nowMs) := by
  unfold observeRaw observe
  generalize maxDriftMs = drift
  have hdrift : ((remote.wallMs : ℚ) ≤ (nowMs : ℚ) + (drift : ℚ)) ↔
      remote.wallMs ≤ nowMs + drift := by
    rw [← Nat.cast_add, Nat.cast_le]
  simp only [LiveClock.ofClock, ofHlc, NumericHlc.raw, Value.number, Value.le, Value.max, hdrift]
  by_cases hle : remote.wallMs ≤ nowMs + drift
  · simp only [hle, decide_true, if_true, Value.same, Value.succ, ← Nat.cast_max, Nat.cast_inj,
      Bool.true_and, Bool.and_eq_true, decide_eq_true_eq, true_and]
    split_ifs <;> simp [Value.number]
  · simp only [hle, decide_false, Bool.false_eq_true, if_false, Value.same, Value.succ,
      ← Nat.cast_max, Nat.cast_inj, Bool.false_and, decide_eq_true_eq, false_and]
    split_ifs <;> simp [Value.number]

/-- The version's wall is a number, which is all `toHlc` asks. -/
def HasWall (version : Json) : Prop := ∃ wallMs, member "wall_ms" version = .number wallMs

theorem toHlc_isSome_iff (render : Json → String) (version : Json) :
    (toHlc render version).isSome = true ↔ HasWall version := by
  unfold toHlc HasWall member
  cases version with
  | obj fields =>
      cases hwall : Json.lookup "wall_ms" fields with
      | none => simp [hwall, Value.number]
      | some value => cases value <;> simp [hwall, Value.number]
  | null | bool _ | num _ | str _ | arr _ => simp [Value.number]

section Through

variable {convert : Json → Option String}

/-- A change whose version has a wall and an actor that cannot be converted. -/
def Throws (convert : Json → Option String) (change : Json) : Prop :=
  HasWall (versionOf change) ∧ converts convert (actorOf (versionOf change)) = false

theorem keepUsable_none_iff (changes : List Json) :
    keepUsable convert changes = none ↔ ∃ change ∈ changes, Throws convert change := by
  induction changes with
  | nil => simp [keepUsable]
  | cons change rest ih =>
      have hwall := toHlc_isSome_iff (rendered convert) (versionOf change)
      simp only [keepUsable, List.exists_mem_cons_iff]
      cases hversion : toHlc (rendered convert) (versionOf change) with
      | none =>
          rw [hversion] at hwall
          have hno : ¬ Throws convert change := fun h => by simpa using hwall.mpr h.1
          simp [hno, ih]
      | some version =>
          rw [hversion] at hwall
          have hhas : HasWall (versionOf change) := hwall.mp rfl
          cases hconverts : converts convert (actorOf (versionOf change)) with
          | false => simp [Throws, hhas, hconverts]
          | true => simp [Throws, hconverts, ih]

theorem mem_keepUsable {changes kept : List Json} (h : keepUsable convert changes = some kept)
    (change : Json) : change ∈ kept ↔ change ∈ changes ∧ HasWall (versionOf change) := by
  induction changes generalizing kept with
  | nil =>
      cases h
      simp
  | cons first rest ih =>
      have hwall := toHlc_isSome_iff (rendered convert) (versionOf first)
      simp only [keepUsable] at h
      cases hversion : toHlc (rendered convert) (versionOf first) with
      | none =>
          rw [hversion] at h hwall
          have hno : ¬ HasWall (versionOf first) := fun hhas => by simpa using hwall.mpr hhas
          rw [ih h, List.mem_cons]
          constructor
          · rintro ⟨hmem, hhas⟩
            exact ⟨Or.inr hmem, hhas⟩
          · rintro ⟨rfl | hmem, hhas⟩
            · exact absurd hhas hno
            · exact ⟨hmem, hhas⟩
      | some version =>
          rw [hversion] at h hwall
          have hhas : HasWall (versionOf first) := hwall.mp rfl
          cases hconverts : converts convert (actorOf (versionOf first)) with
          | false => simp [hconverts] at h
          | true =>
              simp only [hconverts, if_true, Option.map_eq_some_iff] at h
              obtain ⟨others, hothers, rfl⟩ := h
              rw [List.mem_cons, ih hothers, List.mem_cons]
              constructor
              · rintro (rfl | ⟨hmem, hchange⟩)
                · exact ⟨Or.inl rfl, hhas⟩
                · exact ⟨Or.inr hmem, hchange⟩
              · rintro ⟨rfl | hmem, hchange⟩
                · exact Or.inl rfl
                · exact Or.inr ⟨hmem, hchange⟩

/-- A version that holds what the shape of a stamp asks for. -/
def WellShaped (version : Json) : Prop :=
  (∃ counter, member "counter" version = .number counter) ∧
    ∃ actor, member "actor" version = .json (.str actor)

theorem wellFormed_ofJson_iff {version : Json} (hwall : HasWall version) :
    (RawHlc.ofJson version).WellFormed ↔ WellShaped version := by
  obtain ⟨wallMs, hwall⟩ := hwall
  constructor
  · rintro ⟨stamp, hstamp⟩
    simp only [RawHlc.ofJson, NumericHlc.raw, RawHlc.mk.injEq] at hstamp
    exact ⟨⟨stamp.counter, hstamp.2.1⟩, stamp.actor, hstamp.2.2⟩
  · rintro ⟨⟨counter, hcounter⟩, actor, hactor⟩
    refine ⟨⟨wallMs, counter, actor⟩, ?_⟩
    simp only [RawHlc.ofJson, NumericHlc.raw, hwall, hcounter, hactor]

/-- Every version with a wall in a frame is well shaped, or decoding the frame throws. -/
def FrameFits (convert : Json → Option String) (frame : Json) : Prop :=
  (∀ change ∈ offered frame, HasWall (versionOf change) → WellShaped (versionOf change)) ∨
    ∃ change ∈ offered frame, Throws convert change

theorem frameFits_iff (frame : Json) :
    FrameFits convert frame ↔
      ∀ changes, decodeBackendFrame convert frame = some changes →
        ∀ change ∈ changes, (RawHlc.ofJson (versionOf change)).WellFormed := by
  constructor
  · intro hfits changes hdecode change hmem
    obtain ⟨hoffered, hwall⟩ := (mem_keepUsable hdecode change).mp hmem
    rcases hfits with hshaped | hthrows
    · exact (wellFormed_ofJson_iff hwall).mpr (hshaped change hoffered hwall)
    · have hnone := (keepUsable_none_iff (offered frame)).mpr hthrows
      rw [decodeBackendFrame, hnone] at hdecode
      cases hdecode
  · intro hwell
    cases hdecode : decodeBackendFrame convert frame with
    | none => exact Or.inr ((keepUsable_none_iff (offered frame)).mp hdecode)
    | some changes =>
        refine Or.inl ?_
        intro change hoffered hwall
        have hmem := (mem_keepUsable hdecode change).mpr ⟨hoffered, hwall⟩
        exact (wellFormed_ofJson_iff hwall).mp (hwell changes hdecode change hmem)

/-- `p.table`, a missing one as `null`. -/
def tableOf : Json → Json
  | .obj payload => nullish (Json.lookup "table" payload) .null
  | _ => .null

/-- The counter `toHlc` returns. -/
def counterOf (version : Json) : Json :=
  match version with
  | .obj fields => nullish (Json.lookup "counter" fields) (.num 0)
  | _ => .num 0

theorem toHlc_counter {render : Json → String} {version : Json} {decoded : DecodedHlc}
    (h : toHlc render version = some decoded) : decoded.counter = counterOf version := by
  cases version with
  | obj fields =>
      simp only [toHlc] at h
      split at h
      · cases h
        rfl
      · cases h
  | null | bool _ | num _ | str _ | arr _ => cases h

theorem wellFormed_ofDecoded_iff (version : DecodedHlc) :
    (RawHlc.ofDecoded version).WellFormed ↔ ∃ counter, version.counter = .num counter := by
  constructor
  · rintro ⟨stamp, hstamp⟩
    simp only [RawHlc.ofDecoded, NumericHlc.raw, Value.number, RawHlc.mk.injEq,
      Value.json.injEq] at hstamp
    exact ⟨stamp.counter, hstamp.2.1⟩
  · rintro ⟨counter, hcounter⟩
    refine ⟨⟨version.wallMs, counter, version.actor⟩, ?_⟩
    simp only [RawHlc.ofDecoded, NumericHlc.raw, hcounter, Value.number]

/-- A payload about a record is decoded to the record's version, when it names a table and
the record has an id. -/
theorem decodeSupabaseChange_version (render : Json → String) {payload : Json}
    {fields : List (String × Json)} (hrecord : supabaseRecord payload = some fields)
    (version : DecodedHlc) :
    (decodeSupabaseChange render payload).map (·.version) = some version ↔
      (tableOf payload).truthy = true ∧ nullish (Json.lookup "id" fields) .null ≠ .null ∧
        toHlc render (nullish (Json.lookup "sync_version" fields) .null) = some version := by
  cases payload with
  | obj payload =>
      simp only [supabaseRecord] at hrecord
      split at hrecord
      · rename_i found hfound
        cases hrecord
        simp only [decodeSupabaseChange, tableOf]
        cases (nullish (Json.lookup "table" payload) .null).truthy with
        | false => simp
        | true =>
            simp only [Bool.not_true, Bool.false_eq_true, if_false, true_and]
            split
            · rename_i record hrecord
              obtain rfl : record = fields := by
                cases hrecord.symm.trans hfound
                rfl
              split
              · rename_i hid
                simp [hid]
              · rename_i hid
                have hne : nullish (Json.lookup "id" record) .null ≠ .null := hid
                simp [hne]
            · rename_i hother
              exact absurd hfound (hother fields)
      · cases hrecord
  | null | bool _ | num _ | str _ | arr _ => cases hrecord

/-- The version of a payload that is decoded has a number for a counter, or none. -/
def PayloadFits (convert : Json → Option String) (payload : Json) : Prop :=
  ∀ fields, supabaseRecord payload = some fields → (tableOf payload).truthy = true →
    nullish (Json.lookup "id" fields) .null ≠ .null →
    (supabaseConversions fields).all (converts convert) = true →
    HasWall (nullish (Json.lookup "sync_version" fields) .null) →
    ∃ counter, counterOf (nullish (Json.lookup "sync_version" fields) .null) = .num counter

theorem payloadFits_iff (payload : Json) :
    PayloadFits convert payload ↔
      ∀ fields change, supabaseRecord payload = some fields →
        (supabaseConversions fields).all (converts convert) = true →
        decodeSupabaseChange (rendered convert) payload = some change →
        (RawHlc.ofDecoded change.version).WellFormed := by
  constructor
  · intro hfits fields change hrecord hconverts hdecode
    obtain ⟨htable, hid, hversion⟩ := (decodeSupabaseChange_version (rendered convert)
      hrecord change.version).mp (by rw [hdecode, Option.map_some])
    have hwall := (toHlc_isSome_iff _ _).mp (Option.isSome_of_eq_some hversion)
    rw [wellFormed_ofDecoded_iff, toHlc_counter hversion]
    exact hfits fields hrecord htable hid hconverts hwall
  · intro hwell fields hrecord htable hid hconverts hwall
    obtain ⟨version, hsome⟩ := Option.isSome_iff_exists.mp
      ((toHlc_isSome_iff (rendered convert) _).mpr hwall)
    have hversion := (decodeSupabaseChange_version _ hrecord version).mpr ⟨htable, hid, hsome⟩
    obtain ⟨change, hdecode, rfl⟩ := Option.map_eq_some_iff.mp hversion
    rw [← toHlc_counter hsome]
    exact (wellFormed_ofDecoded_iff _).mp (hwell fields change hrecord hconverts hdecode)

end Through

/-- The stamps let through are well formed, in a total order, and leave a clock numeric. -/
structure Sound (convert : Json → Option String) (coercions : Coercions)
    (frames payloads : List Json) : Prop where
  wellFormed : ∀ version, LetThrough convert frames payloads version → version.WellFormed
  antisymmetric : ∀ a b, LetThrough convert frames payloads a →
    LetThrough convert frames payloads b → a ≠ b →
    (compareRaw coercions a b < 0 ↔ ¬ compareRaw coercions b a < 0)
  transitive : ∀ a b c, LetThrough convert frames payloads a →
    LetThrough convert frames payloads b → LetThrough convert frames payloads c →
    compareRaw coercions a b < 0 → compareRaw coercions b c < 0 → compareRaw coercions a c < 0
  numeric : ∀ version, LetThrough convert frames payloads version →
    ∀ clock : LiveClock, clock.Numeric →
      ∀ nowMs, (observeRaw coercions clock version nowMs).Numeric

/-- Well-formed stamps are enough for the order and the clock. -/
theorem sound_of_wellFormed {convert : Json → Option String} (coercions : Coercions)
    {frames payloads : List Json}
    (h : ∀ version, LetThrough convert frames payloads version → version.WellFormed) :
    Sound convert coercions frames payloads where
  wellFormed := h
  antisymmetric a b ha hb hne := by
    obtain ⟨stamp, rfl⟩ := h a ha
    obtain ⟨stamp', rfl⟩ := h b hb
    have hkeys : stamp.key ≠ stamp'.key := by
      intro heq
      exact hne (congrArg NumericHlc.raw (NumericHlc.key_injective heq))
    rw [compareRaw_neg_iff, compareRaw_neg_iff, not_lt]
    exact ⟨le_of_lt, fun hle => lt_of_le_of_ne hle hkeys⟩
  transitive a b c ha hb hc hab hbc := by
    obtain ⟨first, rfl⟩ := h a ha
    obtain ⟨second, rfl⟩ := h b hb
    obtain ⟨third, rfl⟩ := h c hc
    rw [compareRaw_neg_iff] at hab hbc ⊢
    exact hab.trans hbc
  numeric version hversion clock hclock nowMs := by
    obtain ⟨stamp, rfl⟩ := h version hversion
    exact observeRaw_numeric coercions hclock stamp nowMs

/-- What the decoders let through is sound exactly when no frame holds a version with a wall
and an odd counter or actor, and no payload one with an odd counter. -/
theorem decoders_sound_iff (convert : Json → Option String) (coercions : Coercions)
    (frames payloads : List Json) :
    Sound convert coercions frames payloads ↔
      (∀ frame ∈ frames, FrameFits convert frame) ∧
        ∀ payload ∈ payloads, PayloadFits convert payload := by
  constructor
  · intro hsound
    refine ⟨?_, ?_⟩
    · intro frame hframe
      rw [frameFits_iff]
      intro changes hdecode change hmem
      exact hsound.wellFormed _ (.backend hframe hdecode hmem)
    · intro payload hpayload
      rw [payloadFits_iff]
      intro fields change hrecord hconverts hdecode
      exact hsound.wellFormed _ (.supabase hpayload hdecode hrecord hconverts)
  · rintro ⟨hframes, hpayloads⟩
    apply sound_of_wellFormed
    intro version hversion
    cases hversion with
    | backend hframe hdecode hmem =>
        exact (frameFits_iff _).mp (hframes _ hframe) _ hdecode _ hmem
    | supabase hpayload hdecode hrecord hconverts =>
        exact (payloadFits_iff _).mp (hpayloads _ hpayload) _ _ hrecord hconverts hdecode

/-- A frame with one change, whose version has nothing but a wall. -/
def bareFrame : Json :=
  .obj [("event", .str "zed:sync"),
    ("changes", .arr [.obj [("version", .obj [("wall_ms", .num 1)])]])]

theorem bare_version_let_through :
    ¬ ∀ (convert : Json → Option String) (frame : Json) (changes : List Json),
      decodeBackendFrame convert frame = some changes →
        ∀ change ∈ changes, (RawHlc.ofJson (versionOf change)).WellFormed := by
  intro hall
  obtain ⟨stamp, hstamp⟩ := hall (fun _ => none) bareFrame _ rfl _ List.mem_cons_self
  have hcounter := congrArg RawHlc.counter hstamp
  cases hcounter

end ZedSync.Js
