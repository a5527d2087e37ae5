import Mathlib.Tactic.Linarith
import ZedSync.Agreement
import ZedSync.Js.SnapshotValidator
import ZedSync.Lib.Doubles

/-!
The Rust core behind its JSON strings (`src/wasm.rs`), as `loadWasmCore` of
`sdk/src/core.mjs` calls it, against the core in JavaScript. The arguments are objects of
the shapes of `sdk/src/index.d.ts`; the payload and the sequence number that an entry of
the queue has besides are skipped by the decoder. A JSON text is kept as the tree that it
spells; serde's message behind the context of an error is left out.
-/

namespace ZedSync

namespace Js

/-- A whole number of JavaScript is a double. -/
def Number.OfDouble : Number → Prop
  | .finite value => value.den = 1 → Doubles.IsDouble value.num.natAbs
  | .nan | .infinity _ => True

instance (number : Number) : Decidable number.OfDouble :=
  match number with
  | .finite value => inferInstanceAs (Decidable (value.den = 1 → _))
  | .nan | .infinity _ => inferInstanceAs (Decidable True)

abbrev Double : Type := { number : Number // number.OfDouble }

theorem Number.ofDouble_ofNat {n : Nat} : (Number.ofNat n).OfDouble ↔ Doubles.IsDouble n := by
  simp [Number.OfDouble, Number.ofNat]

def Double.ofNat (n : Nat) (h : Doubles.IsDouble n) : Double :=
  ⟨.ofNat n, Number.ofDouble_ofNat.mpr h⟩

/-- A whole number from zero on, below a power of two. -/
def Double.Fits (bits : Nat) (number : Double) : Prop :=
  ∃ n, number.val = .ofNat n ∧ n < 2 ^ bits

structure HlcObject where
  wallMs : Double
  counter : Double
  actor : String

/-- Fields that may be missing are `none`. -/
structure ChangeObject where
  table : String
  op : String
  id : String
  version : HlcObject
  row : Option Json
  atMs : Double
  writeKey : Option String
  syncSequence : Option Double

structure LocalRowObject where
  version : HlcObject
  dirty : Option Bool

structure AckObject where
  id : String
  committedVersion : HlcObject

/-- `base_version` is not in the type of the argument, but an entry of the queue has it. -/
structure QueuedObject where
  table : String
  id : String
  op : String
  baseVersion : Option HlcObject
  key : String

inductive AckReply where
  | adopt (version : HlcObject)
  | superseded

def HlcObject.compareHlc (a b : HlcObject) : Int :=
  if !a.wallMs.val.same b.wallMs.val then if a.wallMs.val.lt b.wallMs.val then -1 else 1
  else if !a.counter.val.same b.counter.val then
    if a.counter.val.lt b.counter.val then -1 else 1
  else if a.actor = b.actor then 0
  else if strLt a.actor b.actor then -1 else 1

def ChangeObject.reconcile (localRow : Option LocalRowObject) (incoming : ChangeObject) :
    Reconcile :=
  match localRow with
  | none => if incoming.op = "upsert" then .apply else .ignore .alreadyApplied
  | some row =>
      let cmp := incoming.version.compareHlc row.version
      if cmp < 0 then .ignore .stale
      else if cmp = 0 then .ignore .alreadyApplied
      else if row.dirty.getD false then .conflict else .apply

def AckObject.onAck (localRow : LocalRowObject) (ack : AckObject) : AckReply :=
  if localRow.version.compareHlc ack.committedVersion > 0 then .superseded
  else .adopt ack.committedVersion

def QueuedObject.isOwnEcho (queued : QueuedObject) (incoming : ChangeObject) : Bool :=
  incoming.table == queued.table && incoming.id == queued.id && incoming.op == queued.op &&
    incoming.writeKey == some queued.key

/-! `JSON.stringify` -/

/-- Whole numbers are written by their shortest decimal. Fractions stay fractions, and
what is not finite becomes `null`. -/
def Double.stringify (number : Double) : Json :=
  match number.val with
  | .finite value =>
      if value.den = 1 then .num (value.num.sign * Doubles.shortest value.num.natAbs)
      else .num value
  | .nan | .infinity _ => .null

/-- A property is left out where it is `undefined`. -/
def property (name : String) (value : Option Json) : List (String × Json) :=
  (value.map fun present => (name, present)).toList

def HlcObject.stringify (stamp : HlcObject) : Json :=
  .obj [("wall_ms", stamp.wallMs.stringify), ("counter", stamp.counter.stringify),
    ("actor", .str stamp.actor)]

def ChangeObject.stringify (change : ChangeObject) : Json :=
  .obj ([("table", .str change.table), ("op", .str change.op), ("id", .str change.id),
      ("version", change.version.stringify)] ++
    property "row" change.row ++ [("at_ms", change.atMs.stringify)] ++
    property "write_key" (change.writeKey.map .str) ++
    property "sync_sequence" (change.syncSequence.map Double.stringify))

def LocalRowObject.stringify (row : LocalRowObject) : Json :=
  .obj (("version", row.version.stringify) :: property "dirty" (row.dirty.map .bool))

def AckObject.stringify (ack : AckObject) : Json :=
  .obj [("id", .str ack.id), ("committed_version", ack.committedVersion.stringify)]

def QueuedObject.stringify (queued : QueuedObject) : Json :=
  .obj ([("table", .str queued.table), ("id", .str queued.id), ("op", .str queued.op)] ++
    property "base_version" (queued.baseVersion.map HlcObject.stringify) ++
    [("key", .str queued.key)])

end Js

mutual

/-- How deep containers are nested. -/
def Json.depth : Json → Nat
  | .arr items => depthOfItems items + 1
  | .obj fields => depthOfFields fields + 1
  | _ => 0

def depthOfItems : List Json → Nat
  | [] => 0
  | item :: rest => max item.depth (depthOfItems rest)

def depthOfFields : List (String × Json) → Nat
  | [] => 0
  | (_, value) :: rest => max value.depth (depthOfFields rest)

end

/-- `is_echo_of`. -/
def Rust.QueuedWrite.isEchoOf (write : Rust.QueuedWrite) (incoming : ChangeEvent) : Bool :=
  incoming.table == write.table && incoming.id == write.id && incoming.op == write.op &&
    incoming.writeKey == some write.key

namespace Wasm

/-- The parser gives up at this depth. -/
def recursionLimit : Nat := 128

/-- The one value of a field, if it has one. A second one is an error. -/
def field (name : String) (fields : List (String × Json)) : Option (Option Json) :=
  match fields.filter fun entry => entry.1 = name with
  | [] => some none
  | [(_, value)] => some (some value)
  | _ => none

def required {α : Type} (name : String) (decode : Json → Option α)
    (fields : List (String × Json)) : Option α := do
  decode (← (← field name fields))

/-- A value of an optional type: `null` is none as well. -/
def decodeOptional {α : Type} (decode : Json → Option α) : Option Json → Option (Option α)
  | none | some .null => some none
  | some value => (decode value).map some

def optional {α : Type} (name : String) (decode : Json → Option α)
    (fields : List (String × Json)) : Option (Option α) := do
  decodeOptional decode (← field name fields)

def decodeString : Json → Option String
  | .str value => some value
  | _ => none

def decodeBool : Json → Option Bool
  | .bool value => some value
  | _ => none

/-- An unsigned integer of that many bits. -/
def decodeUnsigned (bits : Nat) : Json → Option Nat
  | .num value =>
      if value.den = 1 ∧ 0 ≤ value.num ∧ value.num < 2 ^ bits then some value.num.toNat else none
  | _ => none

def decodeOp : Json → Option Op
  | .str "upsert" => some .upsert
  | .str "delete" => some .delete
  | _ => none

/-- A payload inside of an event. -/
def decodeValue (value : Json) : Option Json :=
  if value.depth + 1 < recursionLimit then some value else none

def decodeHlc : Json → Option Hlc
  | .obj fields => do
      let wallMs ← required "wall_ms" (decodeUnsigned 64) fields
      let counter ← required "counter" (decodeUnsigned 32) fields
      let actor ← required "actor" decodeString fields
      return { wallMs, counter, actor }
  | _ => none

/-- The commit clock and the cursor are decoded, and read by nothing here. -/
def decodeChange : Json → Option ChangeEvent
  | .obj fields => do
      let table ← required "table" decodeString fields
      let op ← required "op" decodeOp fields
      let id ← required "id" decodeString fields
      let version ← required "version" decodeHlc fields
      let row ← optional "row" decodeValue fields
      let _ ← required "at_ms" (decodeUnsigned 64) fields
      let writeKey ← optional "write_key" decodeString fields
      let _ ← optional "sync_sequence" (decodeUnsigned 64) fields
      return { table, op, id, version, row, writeKey }
  | _ => none

/-- A missing flag is the default, `null` is not. -/
def decodeLocalRow : Json → Option LocalRow
  | .obj fields => do
      let version ← required "version" decodeHlc fields
      match ← field "dirty" fields with
      | none => return { version, dirty := false }
      | some value => return { version, dirty := ← decodeBool value }
  | _ => none

def decodeAck : Json → Option WriteAck
  | .obj fields => do
      let id ← required "id" decodeString fields
      let committedVersion ← required "committed_version" decodeHlc fields
      return { id, committedVersion }
  | _ => none

def decodeQueued : Json → Option Rust.QueuedWrite
  | .obj fields => do
      let table ← required "table" decodeString fields
      let id ← required "id" decodeString fields
      let op ← required "op" decodeOp fields
      let baseVersion ← required "base_version" decodeHlc fields
      let key ← required "key" decodeString fields
      return { table, id, op, baseVersion, key }
  | _ => none

/-- The decoded argument, or the error's message up to serde's own. -/
def decoded {α : Type} (context : String) (result : Option α) : Except String α :=
  match result with
  | some value => .ok value
  | none => .error ("zed-sync-core: " ++ context ++ ": ")

def reconcile (localRow : Option Json) (incoming : Json) : Except String Reconcile := do
  let row ← match localRow with
    | some text => (decoded "local" (decodeLocalRow text)).map some
    | none => .ok none
  let change ← decoded "incoming" (decodeChange incoming)
  return Rust.reconcile row change

/-- `on_ack`. -/
def onAck (localRow ack : Json) : Except String AckOutcome := do
  let row ← decoded "local" (decodeLocalRow localRow)
  let answer ← decoded "ack" (decodeAck ack)
  return Rust.onAck row answer

/-- `is_own_echo`. -/
def isOwnEcho (queued incoming : Json) : Except String Bool := do
  let write ← decoded "queued" (decodeQueued queued)
  let change ← decoded "incoming" (decodeChange incoming)
  return write.isEchoOf change

end Wasm

namespace Js

/-- `JSON.parse` of a stamp. -/
def HlcObject.parse (stamp : Hlc) : HlcObject where
  wallMs := .ofNat (Doubles.nearest stamp.wallMs) (Doubles.isDouble_nearest _)
  counter := .ofNat (Doubles.nearest stamp.counter) (Doubles.isDouble_nearest _)
  actor := stamp.actor

def AckReply.parse : AckOutcome → AckReply
  | .adopt version => .adopt (.parse version)
  | .superseded => .superseded

/-! `loadWasmCore` -/

namespace WasmCore

def reconcile (localRow : Option LocalRowObject) (incoming : ChangeObject) :
    Except String Reconcile :=
  Wasm.reconcile (localRow.map LocalRowObject.stringify) incoming.stringify

def onAck (localRow : LocalRowObject) (ack : AckObject) : Except String AckReply :=
  (Wasm.onAck localRow.stringify ack.stringify).map AckReply.parse

def isOwnEcho (queued : QueuedObject) (incoming : ChangeObject) : Except String Bool :=
  Wasm.isOwnEcho queued.stringify incoming.stringify

end WasmCore

/-! What the decoder takes -/

/-- `Number.isFinite`. -/
def Double.isFinite (number : Double) : Bool :=
  match number.val with
  | .finite _ => true
  | .nan | .infinity _ => false

structure HlcObject.Encodable (stamp : HlcObject) : Prop where
  wallMs : stamp.wallMs.Fits 64
  counter : stamp.counter.Fits 32

/-- A cursor that is not finite is written as `null`, which is no cursor. -/
structure ChangeObject.Encodable (change : ChangeObject) : Prop where
  op : change.op = "upsert" ∨ change.op = "delete"
  version : change.version.Encodable
  row : ∀ row, change.row = some row → row.depth + 1 < Wasm.recursionLimit
  atMs : change.atMs.Fits 64
  syncSequence : ∀ cursor, change.syncSequence = some cursor →
    cursor.isFinite = true → cursor.Fits 64

structure QueuedObject.Encodable (queued : QueuedObject) : Prop where
  op : queued.op = "upsert" ∨ queued.op = "delete"
  baseVersion : ∃ version, queued.baseVersion = some version ∧ version.Encodable

/-- The stamps tie up to their actors, which Rust and JavaScript order differently. -/
def HlcObject.Skewed (a b : HlcObject) : Prop :=
  a.wallMs.val.same b.wallMs.val = true ∧ a.counter.val.same b.counter.val = true ∧
    ∃ c d, Lexicographic.firstDiff a.actor.toList b.actor.toList = some (c, d) ∧ Astride c d

/-- What the decoder makes of a stamp. -/
structure HlcObject.Decodes (stamp : HlcObject) (decoded : Hlc) : Prop where
  wall : ∃ n, stamp.wallMs.val = .ofNat n ∧ n < 2 ^ 64 ∧ decoded.wallMs = Doubles.shortest n
  counter : stamp.counter.val = .ofNat decoded.counter ∧ decoded.counter < 2 ^ 32
  actor : decoded.actor = stamp.actor

section Decode

theorem Double.isDouble {number : Double} {n : Nat} (h : number.val = .ofNat n) :
    Doubles.IsDouble n := by
  have hdouble := number.property
  rw [h] at hdouble
  exact Number.ofDouble_ofNat.mp hdouble

theorem Double.stringify_ofNat {number : Double} {n : Nat} (h : number.val = .ofNat n) :
    number.stringify = .num (Doubles.shortest n) := by
  rw [Double.stringify, h]
  rcases Nat.eq_zero_or_pos n with rfl | hpos
  · simp [Number.ofNat, Doubles.shortest_of_lt]
  · have hsign : (n : ℤ).sign = 1 := Int.sign_eq_one_of_pos (by exact_mod_cast hpos)
    simp [Number.ofNat, hsign]

/-- Only a whole number from zero on is decoded. -/
theorem ofNat_of_decodeUnsigned {bits : Nat} {number : Double} {value : Nat}
    (h : Wasm.decodeUnsigned bits number.stringify = some value) :
    ∃ n, number.val = .ofNat n := by
  obtain ⟨number, hdouble⟩ := number
  cases number with
  | nan => cases h
  | infinity negative => cases h
  | finite value =>
      by_cases hden : value.den = 1
      · by_cases hnum : 0 ≤ value.num
        · exact ⟨_, Number.eq_ofNat hden hnum⟩
        · exfalso
          have hsign : value.num.sign = -1 := Int.sign_eq_neg_one_of_neg (by omega)
          have hpositive : Doubles.shortest value.num.natAbs ≠ 0 := by
            intro hzero
            have hread := Doubles.nearest_shortest (hdouble hden)
            rw [hzero] at hread
            have hnone : Doubles.nearest 0 = 0 := rfl
            omega
          simp only [Double.stringify, hden, if_true, hsign, Wasm.decodeUnsigned] at h
          split at h
          · rename_i hfits
            have hnum' := hfits.2.1
            rw [Rat.num_nonneg] at hnum'
            have hpos : (0 : ℚ) < Doubles.shortest value.num.natAbs := by
              exact_mod_cast Nat.pos_of_ne_zero hpositive
            push_cast at hnum'
            linarith
          · cases h
      · simp [Double.stringify, hden, Wasm.decodeUnsigned] at h

/-- The decoder takes the whole numbers of its range, by their decimals. -/
theorem decodeUnsigned_stringify {bits : Nat} (hbound : Doubles.IsDouble (2 ^ bits))
    (hwritten : 2 ^ bits ≤ Doubles.shortest (2 ^ bits)) (number : Double) (value : Nat) :
    Wasm.decodeUnsigned bits number.stringify = some value ↔
      ∃ n, number.val = .ofNat n ∧ n < 2 ^ bits ∧ value = Doubles.shortest n := by
  have hdecode : ∀ n, number.val = .ofNat n →
      (Wasm.decodeUnsigned bits number.stringify = some value ↔
        n < 2 ^ bits ∧ value = Doubles.shortest n) := by
    intro n hn
    have hrange := Doubles.shortest_lt_bound_iff (Double.isDouble hn) hbound hwritten
    have hcast : ((Doubles.shortest n : ℕ) : ℤ) < 2 ^ bits ↔ Doubles.shortest n < 2 ^ bits := by
      exact_mod_cast Iff.rfl
    rw [Double.stringify_ofNat hn, Wasm.decodeUnsigned]
    simp only [Rat.den_natCast, Rat.num_natCast, Int.natCast_nonneg, true_and, hcast, hrange,
      Int.toNat_natCast]
    split
    · simp [*, eq_comm]
    · simp [*]
  constructor
  · intro h
    obtain ⟨n, hn⟩ := ofNat_of_decodeUnsigned h
    exact ⟨n, hn, (hdecode n hn).mp h⟩
  · rintro ⟨n, hn, hvalue⟩
    exact (hdecode n hn).mpr hvalue

theorem decode64_stringify (number : Double) (value : Nat) :
    Wasm.decodeUnsigned 64 number.stringify = some value ↔
      ∃ n, number.val = .ofNat n ∧ n < 2 ^ 64 ∧ value = Doubles.shortest n :=
  decodeUnsigned_stringify (by decide) (by decide) number value

/-- Numbers of 32 bits are written as they are. -/
theorem decode32_stringify (number : Double) (value : Nat) :
    Wasm.decodeUnsigned 32 number.stringify = some value ↔
      number.val = .ofNat value ∧ value < 2 ^ 32 := by
  rw [decodeUnsigned_stringify (by decide) (by decide)]
  constructor
  · rintro ⟨n, hn, hlt, rfl⟩
    rw [Doubles.shortest_of_lt (by omega)]
    exact ⟨hn, hlt⟩
  · rintro ⟨hvalue, hlt⟩
    exact ⟨value, hvalue, hlt, (Doubles.shortest_of_lt (by omega)).symm⟩

theorem decodeHlc_stringify (stamp : HlcObject) (decoded : Hlc) :
    Wasm.decodeHlc stamp.stringify = some decoded ↔ stamp.Decodes decoded := by
  have hdecode : Wasm.decodeHlc stamp.stringify =
      (Wasm.decodeUnsigned 64 stamp.wallMs.stringify).bind fun wallMs =>
        (Wasm.decodeUnsigned 32 stamp.counter.stringify).bind fun counter =>
          some { wallMs := wallMs, counter := counter, actor := stamp.actor } := by
    simp [Wasm.decodeHlc, HlcObject.stringify, Wasm.required, Wasm.field, Wasm.decodeString]
  rw [hdecode]
  simp only [Option.bind_eq_some_iff, Option.some.injEq]
  constructor
  · rintro ⟨wallMs, hwall, counter, hcounter, rfl⟩
    exact ⟨(decode64_stringify _ _).mp hwall, (decode32_stringify _ _).mp hcounter, rfl⟩
  · rintro ⟨hwall, hcounter, hactor⟩
    exact ⟨_, (decode64_stringify _ _).mpr hwall, _, (decode32_stringify _ _).mpr hcounter,
      Hlc.ext rfl rfl hactor.symm⟩

/-- The stamps the decoder takes. -/
theorem HlcObject.encodable_iff {stamp : HlcObject} :
    stamp.Encodable ↔ ∃ decoded, stamp.Decodes decoded := by
  constructor
  · rintro ⟨⟨wall, hwall, hwallLt⟩, counter, hcounter, hcounterLt⟩
    exact ⟨{ wallMs := Doubles.shortest wall, counter := counter, actor := stamp.actor },
      ⟨wall, hwall, hwallLt, rfl⟩, ⟨hcounter, hcounterLt⟩, rfl⟩
  · rintro ⟨decoded, ⟨wall, hwall, hwallLt, -⟩, ⟨hcounter, hcounterLt⟩, -⟩
    exact ⟨⟨wall, hwall, hwallLt⟩, ⟨decoded.counter, hcounter, hcounterLt⟩⟩

/-- A decoded stamp that is written and parsed again is the stamp. -/
theorem HlcObject.Decodes.parse {stamp : HlcObject} {decoded : Hlc}
    (h : stamp.Decodes decoded) : HlcObject.parse decoded = stamp := by
  obtain ⟨wallMs, counter, actor⟩ := stamp
  obtain ⟨⟨wall, hwall, -, hdecimal⟩, ⟨hcounter, hcounterLt⟩, hactor⟩ := h
  have hwallRead : Doubles.nearest decoded.wallMs = wall := by
    rw [hdecimal, Doubles.nearest_shortest (Double.isDouble hwall)]
  have hcounterRead : Doubles.nearest decoded.counter = decoded.counter :=
    Doubles.isDouble_of_lt (by omega)
  simp only [HlcObject.parse, HlcObject.mk.injEq]
  refine ⟨Subtype.ext ?_, Subtype.ext ?_, hactor⟩
  · exact (congrArg Number.ofNat hwallRead).trans hwall.symm
  · exact (congrArg Number.ofNat hcounterRead).trans hcounter.symm

section Pair

variable {a b : HlcObject} {decodedA decodedB : Hlc}

/-- Decoding keeps what JavaScript makes of two stamps. -/
theorem HlcObject.Decodes.compareHlc (ha : a.Decodes decodedA) (hb : b.Decodes decodedB) :
    a.compareHlc b = Js.compareHlc decodedA decodedB := by
  obtain ⟨⟨wall, hwall, -, hdecimal⟩, ⟨hcounter, -⟩, hactor⟩ := ha
  obtain ⟨⟨wall', hwall', -, hdecimal'⟩, ⟨hcounter', -⟩, hactor'⟩ := hb
  have hdouble := Double.isDouble hwall
  have hdouble' := Double.isDouble hwall'
  have hsame : Doubles.shortest wall = Doubles.shortest wall' ↔ wall = wall' :=
    ⟨Doubles.shortest_injective hdouble hdouble', congrArg Doubles.shortest⟩
  simp only [HlcObject.compareHlc, Js.compareHlc, hwall, hwall', hcounter, hcounter', hdecimal,
    hdecimal', hactor, hactor', Number.same_ofNat, Number.lt_ofNat, decide_eq_true_eq, ne_eq,
    Bool.not_eq_true', decide_eq_false_iff_not, hsame, Doubles.shortest_lt_iff hdouble hdouble']

theorem HlcObject.Decodes.skewed_iff (ha : a.Decodes decodedA) (hb : b.Decodes decodedB) :
    a.Skewed b ↔ ZedSync.Skewed decodedA decodedB := by
  obtain ⟨⟨wall, hwall, -, hdecimal⟩, ⟨hcounter, -⟩, hactor⟩ := ha
  obtain ⟨⟨wall', hwall', -, hdecimal'⟩, ⟨hcounter', -⟩, hactor'⟩ := hb
  have hsame : Doubles.shortest wall = Doubles.shortest wall' ↔ wall = wall' :=
    ⟨Doubles.shortest_injective (Double.isDouble hwall) (Double.isDouble hwall'),
      congrArg Doubles.shortest⟩
  simp only [HlcObject.Skewed, ZedSync.Skewed, hwall, hwall', hcounter, hcounter', hdecimal,
    hdecimal', hactor, hactor', Number.same_ofNat, decide_eq_true_eq, hsame]

end Pair

/-- What the decoder makes of a change, up to the payload. -/
structure ChangeObject.Decodes (change : ChangeObject) (decoded : ChangeEvent) : Prop where
  table : decoded.table = change.table
  op : Wasm.decodeOp (.str change.op) = some decoded.op
  id : decoded.id = change.id
  version : change.version.Decodes decoded.version
  writeKey : decoded.writeKey = change.writeKey

theorem decodeOp_str (text : String) (op : Op) :
    Wasm.decodeOp (.str text) = some op ↔
      text = "upsert" ∧ op = .upsert ∨ text = "delete" ∧ op = .delete := by
  unfold Wasm.decodeOp
  split
  · rename_i heq
    obtain rfl := Json.str.inj heq
    simp [eq_comm]
  · rename_i heq
    obtain rfl := Json.str.inj heq
    simp [eq_comm]
  · rename_i hupsert hdelete
    simp only [reduceCtorEq, false_iff, not_or, not_and]
    refine ⟨fun heq => ?_, fun heq => ?_⟩
    · exact absurd (congrArg Json.str heq) hupsert
    · exact absurd (congrArg Json.str heq) hdelete

theorem filter_property (name other : String) (value : Option Json) :
    (property other value).filter (fun entry => entry.1 = name) =
      if other = name then property other value else [] := by
  cases value with
  | none => simp [property]
  | some present => simp [property, List.filter_cons]

/-- A field is read where the text has it. -/
theorem field_of_filter {name : String} {fields : List (String × Json)} {value : Option Json}
    (h : (fields.filter fun entry => entry.1 = name) = property name value) :
    Wasm.field name fields = some value := by
  rw [Wasm.field, h]
  cases value <;> rfl

/-- The fields of a change, as they are read from its text. -/
theorem ChangeObject.stringify_fields (change : ChangeObject) :
    ∃ fields, change.stringify = .obj fields ∧
      ∀ name value, (name, value) ∈ [("table", some (.str change.table)),
        ("op", some (.str change.op)), ("id", some (.str change.id)),
        ("version", some change.version.stringify), ("row", change.row),
        ("at_ms", some change.atMs.stringify), ("write_key", change.writeKey.map .str),
        ("sync_sequence", change.syncSequence.map Double.stringify)] →
      Wasm.field name fields = some value := by
  refine ⟨_, rfl, fun name value h => field_of_filter ?_⟩
  simp only [List.mem_cons, Prod.mk.injEq, List.not_mem_nil, or_false] at h
  rcases h with ⟨rfl, rfl⟩ | ⟨rfl, rfl⟩ | ⟨rfl, rfl⟩ | ⟨rfl, rfl⟩ | ⟨rfl, rfl⟩ | ⟨rfl, rfl⟩ |
    ⟨rfl, rfl⟩ | ⟨rfl, rfl⟩ <;>
    simp [List.filter_append, filter_property] <;> simp [property]

/-- What the decoder reads of a change. -/
theorem decodeChange_stringify (change : ChangeObject) :
    Wasm.decodeChange change.stringify =
      (Wasm.decodeOp (.str change.op)).bind fun op =>
      (Wasm.decodeHlc change.version.stringify).bind fun version =>
      (Wasm.decodeOptional Wasm.decodeValue change.row).bind fun row =>
      (Wasm.decodeUnsigned 64 change.atMs.stringify).bind fun _ =>
      (Wasm.decodeOptional (Wasm.decodeUnsigned 64)
        (change.syncSequence.map Double.stringify)).bind fun _ =>
      some { table := change.table, op := op, id := change.id, version := version, row := row,
             writeKey := change.writeKey } := by
  obtain ⟨fields, hobj, hread⟩ := change.stringify_fields
  have hwriteKey : Wasm.decodeOptional Wasm.decodeString (change.writeKey.map .str) =
      some change.writeKey := by
    cases change.writeKey <;> rfl
  have htable := hread "table" (some (.str change.table)) (by simp)
  have hop := hread "op" (some (.str change.op)) (by simp)
  have hid := hread "id" (some (.str change.id)) (by simp)
  have hversion := hread "version" (some change.version.stringify) (by simp)
  have hrow := hread "row" change.row (by simp)
  have hatMs := hread "at_ms" (some change.atMs.stringify) (by simp)
  have hkey := hread "write_key" (change.writeKey.map .str) (by simp)
  have hcursor := hread "sync_sequence" (change.syncSequence.map Double.stringify) (by simp)
  simp [hobj, Wasm.decodeChange, Wasm.required, Wasm.optional, Wasm.decodeString, htable, hop, hid,
    hversion, hrow, hatMs, hkey, hcursor, hwriteKey]

/-- A decoded change is the change, up to its payload. -/
theorem decodeChange_decodes {change : ChangeObject} {decoded : ChangeEvent}
    (h : Wasm.decodeChange change.stringify = some decoded) : change.Decodes decoded := by
  rw [decodeChange_stringify] at h
  simp only [Option.bind_eq_some_iff, Option.some.injEq] at h
  obtain ⟨op, hop, version, hversion, row, -, -, -, -, -, rfl⟩ := h
  exact ⟨rfl, hop, rfl, (decodeHlc_stringify _ _).mp hversion, rfl⟩

theorem fits_iff_decode64 (number : Double) :
    number.Fits 64 ↔ (Wasm.decodeUnsigned 64 number.stringify).isSome = true := by
  rw [Option.isSome_iff_exists]
  simp only [decode64_stringify]
  constructor
  · rintro ⟨n, hn, hlt⟩
    exact ⟨_, n, hn, hlt, rfl⟩
  · rintro ⟨_, n, hn, hlt, -⟩
    exact ⟨n, hn, hlt⟩

theorem encodable_iff_decodeHlc (stamp : HlcObject) :
    stamp.Encodable ↔ (Wasm.decodeHlc stamp.stringify).isSome = true := by
  rw [Option.isSome_iff_exists, HlcObject.encodable_iff]
  simp only [decodeHlc_stringify]

theorem op_iff_decodeOp (text : String) :
    text = "upsert" ∨ text = "delete" ↔ (Wasm.decodeOp (.str text)).isSome = true := by
  rw [Option.isSome_iff_exists]
  simp only [decodeOp_str]
  constructor
  · rintro (hupsert | hdelete)
    · exact ⟨.upsert, Or.inl ⟨hupsert, rfl⟩⟩
    · exact ⟨.delete, Or.inr ⟨hdelete, rfl⟩⟩
  · rintro ⟨op, hop⟩
    exact hop.imp And.left And.left

theorem row_iff_decodeValue (row : Option Json) :
    (∀ value, row = some value → value.depth + 1 < Wasm.recursionLimit) ↔
      (Wasm.decodeOptional Wasm.decodeValue row).isSome = true := by
  cases row with
  | none => simp [Wasm.decodeOptional]
  | some value =>
      cases value with
      | null => simp [Wasm.decodeOptional, Json.depth, Wasm.recursionLimit]
      | bool _ | num _ | str _ | arr _ | obj _ =>
          simp [Wasm.decodeOptional, Wasm.decodeValue]

theorem stringify_cases (number : Double) :
    number.isFinite = false ∧ number.stringify = .null ∨
      number.isFinite = true ∧ ∃ value, number.stringify = .num value := by
  obtain ⟨number, hdouble⟩ := number
  cases number with
  | nan => exact Or.inl ⟨rfl, rfl⟩
  | infinity negative => exact Or.inl ⟨rfl, rfl⟩
  | finite value =>
      refine Or.inr ⟨rfl, ?_⟩
      unfold Double.stringify
      dsimp only
      split
      · exact ⟨_, rfl⟩
      · exact ⟨_, rfl⟩

theorem cursor_iff_decode64 (cursor : Option Double) :
    (∀ number, cursor = some number → number.isFinite = true → number.Fits 64) ↔
      (Wasm.decodeOptional (Wasm.decodeUnsigned 64)
        (cursor.map Double.stringify)).isSome = true := by
  cases cursor with
  | none => simp [Wasm.decodeOptional]
  | some number =>
      have hfits := fits_iff_decode64 number
      rcases stringify_cases number with ⟨hfinite, hnull⟩ | ⟨hfinite, value, hvalue⟩
      · simp [hnull, Wasm.decodeOptional, hfinite]
      · rw [hvalue] at hfits
        simp [hvalue, Wasm.decodeOptional, hfinite, hfits]

/-- The changes the decoder takes. -/
theorem ChangeObject.encodable_iff {change : ChangeObject} :
    change.Encodable ↔ (Wasm.decodeChange change.stringify).isSome = true := by
  have hall : change.Encodable ↔ (change.op = "upsert" ∨ change.op = "delete") ∧
      change.version.Encodable ∧
      (∀ row, change.row = some row → row.depth + 1 < Wasm.recursionLimit) ∧
      change.atMs.Fits 64 ∧
      ∀ cursor, change.syncSequence = some cursor → cursor.isFinite = true → cursor.Fits 64 :=
    ⟨fun ⟨hop, hversion, hrow, hatMs, hcursor⟩ => ⟨hop, hversion, hrow, hatMs, hcursor⟩,
      fun ⟨hop, hversion, hrow, hatMs, hcursor⟩ => ⟨hop, hversion, hrow, hatMs, hcursor⟩⟩
  rw [hall, decodeChange_stringify, op_iff_decodeOp, encodable_iff_decodeHlc, row_iff_decodeValue,
    fits_iff_decode64, cursor_iff_decode64]
  simp only [Option.isSome_iff_exists, Option.bind_eq_some_iff]
  constructor
  · rintro ⟨⟨op, hop⟩, ⟨version, hversion⟩, ⟨row, hrow⟩, ⟨atMs, hatMs⟩, cursor, hcursor⟩
    exact ⟨_, op, hop, version, hversion, row, hrow, atMs, hatMs, cursor, hcursor, rfl⟩
  · rintro ⟨_, op, hop, version, hversion, row, hrow, atMs, hatMs, cursor, hcursor, -⟩
    exact ⟨⟨op, hop⟩, ⟨version, hversion⟩, ⟨row, hrow⟩, ⟨atMs, hatMs⟩, cursor, hcursor⟩

theorem decodeLocalRow_stringify (row : LocalRowObject) :
    Wasm.decodeLocalRow row.stringify = (Wasm.decodeHlc row.version.stringify).bind fun version =>
      some { version := version, dirty := row.dirty.getD false } := by
  obtain ⟨version, dirty⟩ := row
  cases dirty <;>
    simp [LocalRowObject.stringify, Wasm.decodeLocalRow, Wasm.required, Wasm.field, property,
      Wasm.decodeBool]

theorem decodeAck_stringify (ack : AckObject) :
    Wasm.decodeAck ack.stringify =
      (Wasm.decodeHlc ack.committedVersion.stringify).bind fun version =>
        some { id := ack.id, committedVersion := version } := by
  simp [AckObject.stringify, Wasm.decodeAck, Wasm.required, Wasm.field, Wasm.decodeString]

/-- The base version has to be there. -/
theorem decodeQueued_stringify (queued : QueuedObject) :
    Wasm.decodeQueued queued.stringify =
      (Wasm.decodeOp (.str queued.op)).bind fun op =>
      (queued.baseVersion.bind fun version => Wasm.decodeHlc version.stringify).bind fun version =>
        some { table := queued.table, id := queued.id, op := op, baseVersion := version,
               key := queued.key } := by
  obtain ⟨table, id, op, baseVersion, key⟩ := queued
  cases baseVersion <;>
    simp [QueuedObject.stringify, Wasm.decodeQueued, Wasm.required, Wasm.field, property,
      Wasm.decodeString]

theorem QueuedObject.encodable_iff {queued : QueuedObject} :
    queued.Encodable ↔ (Wasm.decodeQueued queued.stringify).isSome = true := by
  have hboth : queued.Encodable ↔ (queued.op = "upsert" ∨ queued.op = "delete") ∧
      ∃ version, queued.baseVersion = some version ∧ version.Encodable :=
    ⟨fun ⟨hop, hversion⟩ => ⟨hop, hversion⟩, fun ⟨hop, hversion⟩ => ⟨hop, hversion⟩⟩
  rw [hboth, decodeQueued_stringify, op_iff_decodeOp]
  simp only [encodable_iff_decodeHlc, Option.isSome_iff_exists, Option.bind_eq_some_iff]
  constructor
  · rintro ⟨⟨op, hop⟩, version, hbase, decoded, hdecoded⟩
    exact ⟨_, op, hop, decoded, ⟨version, hbase, hdecoded⟩, rfl⟩
  · rintro ⟨_, op, hop, decoded, ⟨version, hbase, hdecoded⟩, -⟩
    exact ⟨⟨op, hop⟩, version, hbase, decoded, hdecoded⟩

end Decode

/-! The core in JavaScript on objects, and on what they are decoded as -/

theorem ChangeObject.Decodes.reconcile_none {incoming : ChangeObject} {change : ChangeEvent}
    (h : incoming.Decodes change) :
    incoming.reconcile none = Js.reconcile none change := by
  rcases (decodeOp_str _ _).mp h.op with ⟨htext, hop⟩ | ⟨htext, hop⟩ <;>
    simp [ChangeObject.reconcile, Js.reconcile, htext, hop]

theorem ChangeObject.Decodes.reconcile_some {incoming : ChangeObject} {change : ChangeEvent}
    (h : incoming.Decodes change) (row : LocalRowObject) {version : Hlc}
    (hversion : row.version.Decodes version) :
    incoming.reconcile (some row) =
      Js.reconcile (some { version := version, dirty := row.dirty.getD false }) change := by
  simp only [ChangeObject.reconcile, Js.reconcile, h.version.compareHlc hversion]

theorem AckObject.parse_onAck (row : LocalRowObject) (ack : AckObject) {version committed : Hlc}
    (hversion : row.version.Decodes version) (hack : ack.committedVersion.Decodes committed) :
    ack.onAck row = .parse (Js.onAck { version := version, dirty := row.dirty.getD false }
      { id := ack.id, committedVersion := committed }) := by
  simp only [AckObject.onAck, Js.onAck, hversion.compareHlc hack]
  split
  · rfl
  · rw [AckReply.parse, hack.parse]

theorem AckReply.parse_injective {first second : AckOutcome} (committed : Hlc)
    (hfirst : first = .superseded ∨ first = .adopt committed)
    (hsecond : second = .superseded ∨ second = .adopt committed)
    (h : AckReply.parse first = .parse second) : first = second := by
  rcases hfirst with rfl | rfl <;> rcases hsecond with rfl | rfl <;> first | rfl | cases h

theorem QueuedObject.isOwnEcho_eq {queued : QueuedObject} {write : Rust.QueuedWrite}
    (hwrite : Wasm.decodeQueued queued.stringify = some write) {incoming : ChangeObject}
    {change : ChangeEvent} (h : incoming.Decodes change) :
    queued.isOwnEcho incoming = write.isEchoOf change := by
  rw [decodeQueued_stringify] at hwrite
  simp only [Option.bind_eq_some_iff, Option.some.injEq] at hwrite
  obtain ⟨op, hop, version, -, rfl⟩ := hwrite
  have hsame : (incoming.op == queued.op) = (change.op == op) := by
    rcases (decodeOp_str _ _).mp hop with ⟨htext, rfl⟩ | ⟨htext, rfl⟩ <;>
      rcases (decodeOp_str _ _).mp h.op with ⟨htext', hop'⟩ | ⟨htext', hop'⟩ <;>
      simp [htext, htext', hop']
  simp only [QueuedObject.isOwnEcho, Rust.QueuedWrite.isEchoOf, h.table, h.id, h.writeKey, hsame]

namespace WasmCore

theorem reconcile_agrees_iff (localRow : Option LocalRowObject) (incoming : ChangeObject) :
    reconcile localRow incoming = .ok (incoming.reconcile localRow) ↔
      incoming.Encodable ∧ ∀ row, localRow = some row →
        row.version.Encodable ∧ ¬ incoming.version.Skewed row.version := by
  rw [ChangeObject.encodable_iff]
  cases localRow with
  | none =>
      simp only [reconcile, Wasm.reconcile, Option.map_none, reduceCtorEq, false_implies,
        implies_true, and_true]
      cases hchange : Wasm.decodeChange incoming.stringify with
      | none => simp [Wasm.decoded, bind, Except.bind]
      | some change =>
          have hdecodes := decodeChange_decodes hchange
          have hagree := (reconcile_agree_iff none change).mpr nofun
          simp [Wasm.decoded, bind, Except.bind, pure, Except.pure, hdecodes.reconcile_none,
            hagree]
  | some row =>
      simp only [reconcile, Wasm.reconcile, Option.map_some, Option.some.injEq, forall_eq',
        encodable_iff_decodeHlc, decodeLocalRow_stringify]
      cases hrow : Wasm.decodeHlc row.version.stringify with
      | none => simp [Wasm.decoded, bind, Except.bind, Except.map]
      | some version =>
          have hversion := (decodeHlc_stringify _ _).mp hrow
          cases hchange : Wasm.decodeChange incoming.stringify with
          | none => simp [Wasm.decoded, bind, Except.bind, Except.map]
          | some change =>
              have hdecodes := decodeChange_decodes hchange
              have hagree := reconcile_agree_iff
                (some { version := version, dirty := row.dirty.getD false }) change
              simp only [Option.some.injEq, forall_eq'] at hagree
              simp [Wasm.decoded, bind, Except.bind, Except.map, pure, Except.pure,
                hdecodes.reconcile_some row hversion, hagree,
                hdecodes.version.skewed_iff hversion]

theorem onAck_agrees_iff (localRow : LocalRowObject) (ack : AckObject) :
    onAck localRow ack = .ok (ack.onAck localRow) ↔
      localRow.version.Encodable ∧ ack.committedVersion.Encodable ∧
        ¬ localRow.version.Skewed ack.committedVersion := by
  simp only [onAck, Wasm.onAck, encodable_iff_decodeHlc, decodeLocalRow_stringify,
    decodeAck_stringify]
  cases hrow : Wasm.decodeHlc localRow.version.stringify with
  | none => simp [Wasm.decoded, bind, Except.bind, Except.map]
  | some version =>
      have hversion := (decodeHlc_stringify _ _).mp hrow
      cases hack : Wasm.decodeHlc ack.committedVersion.stringify with
      | none => simp [Wasm.decoded, bind, Except.bind, Except.map]
      | some committed =>
          have hcommitted := (decodeHlc_stringify _ _).mp hack
          have hagree := onAck_agree_iff { version := version, dirty := localRow.dirty.getD false }
            { id := ack.id, committedVersion := committed }
          have hparse : AckReply.parse (Rust.onAck
                { version := version, dirty := localRow.dirty.getD false }
                { id := ack.id, committedVersion := committed }) = ack.onAck localRow ↔
              ¬ Skewed version committed := by
            rw [AckObject.parse_onAck localRow ack hversion hcommitted, ← hagree]
            refine ⟨AckReply.parse_injective committed ?_ ?_, congrArg _⟩
            · unfold Rust.onAck
              split
              · exact Or.inl rfl
              · exact Or.inr rfl
            · unfold Js.onAck
              split
              · exact Or.inl rfl
              · exact Or.inr rfl
          simp [Wasm.decoded, bind, Except.bind, Except.map, pure, Except.pure, hparse,
            hversion.skewed_iff hcommitted]

theorem isOwnEcho_agrees_iff (queued : QueuedObject) (incoming : ChangeObject) :
    isOwnEcho queued incoming = .ok (queued.isOwnEcho incoming) ↔
      queued.Encodable ∧ incoming.Encodable := by
  rw [QueuedObject.encodable_iff, ChangeObject.encodable_iff, isOwnEcho, Wasm.isOwnEcho]
  cases hwrite : Wasm.decodeQueued queued.stringify with
  | none => simp [Wasm.decoded, bind, Except.bind]
  | some write =>
      cases hchange : Wasm.decodeChange incoming.stringify with
      | none => simp [Wasm.decoded, bind, Except.bind]
      | some change =>
          have hecho := QueuedObject.isOwnEcho_eq hwrite (decodeChange_decodes hchange)
          simp [Wasm.decoded, bind, Except.bind, pure, Except.pure, hecho]

end WasmCore

/-- The Rust core behind `loadWasmCore` answers as the core in JavaScript does, exactly
when the decoder takes the arguments and no two stamps that are compared are skewed. -/
theorem wasm_core_agrees_iff (localRow : Option LocalRowObject) (incoming : ChangeObject)
    (row : LocalRowObject) (ack : AckObject) (queued : QueuedObject) :
    (WasmCore.reconcile localRow incoming = .ok (incoming.reconcile localRow) ↔
      incoming.Encodable ∧ ∀ row, localRow = some row →
        row.version.Encodable ∧ ¬ incoming.version.Skewed row.version) ∧
    (WasmCore.onAck row ack = .ok (ack.onAck row) ↔
      row.version.Encodable ∧ ack.committedVersion.Encodable ∧
        ¬ row.version.Skewed ack.committedVersion) ∧
    (WasmCore.isOwnEcho queued incoming = .ok (queued.isOwnEcho incoming) ↔
      queued.Encodable ∧ incoming.Encodable) :=
  ⟨WasmCore.reconcile_agrees_iff localRow incoming, WasmCore.onAck_agrees_iff row ack,
    WasmCore.isOwnEcho_agrees_iff queued incoming⟩

example (incoming : ChangeObject) :
    WasmCore.isOwnEcho
        { table := "carts", id := "c1", op := "upsert", baseVersion := none, key := "k" } incoming =
      .error "zed-sync-core: queued: " := rfl

end Js

end ZedSync
