import ZedSync.Postgres.Record

/-!
One committed change over both transports: the entry the `record` trigger puts into
the outbox, and what `decodeSupabaseChange` (`sdk/src/transports/decode.mjs`) makes of
the realtime payload of the same row. An update or insert is the same change on both.
A delete is recorded one tick past the row, and decoded at the row's own version.
-/

namespace ZedSync

namespace Js

/-- The stamp `toHlc` returns. -/
structure DecodedHlc where
  wallMs : Rat
  counter : Json
  actor : String
  deriving Repr

/-- `a ?? b`. -/
def nullish (value : Option Json) (otherwise : Json) : Json :=
  match value with
  | none | some .null => otherwise
  | some value => value

/-- `String(value)`, where `render` writes what is neither a string nor nullish. -/
def stringOf (render : Json → String) (value : Json) : String :=
  match value with
  | .str text => text
  | value => render value

def toHlc (render : Json → String) : Json → Option DecodedHlc
  | .obj fields =>
      match Json.lookup "wall_ms" fields with
      | some (.num wallMs) =>
          some
            { wallMs := wallMs
              counter := nullish (Json.lookup "counter" fields) (.num 0)
              actor := stringOf render (nullish (Json.lookup "actor" fields) (.str "srv")) }
      | _ => none
  | _ => none

/-- A decoded change; the time it shows is left out. -/
structure SupabaseChange where
  table : Json
  op : Op
  id : String
  version : DecodedHlc
  row : Option Json
  writeKey : Option Json
  deriving Repr

/-- A payload without a usable version is dropped rather than given one. -/
def decodeSupabaseChange (render : Json → String) : Json → Option SupabaseChange
  | .obj payload =>
      let table := nullish (Json.lookup "table" payload) .null
      if !table.truthy then none
      else
        let isDelete : Bool := match Json.lookup "eventType" payload with
          | some (.str eventType) => eventType == "DELETE"
          | _ => false
        match Json.lookup (if isDelete then "old" else "new") payload with
        | some (.obj fields) =>
            match nullish (Json.lookup "id" fields) .null with
            | .null => none
            | id =>
                (toHlc render (nullish (Json.lookup "sync_version" fields) .null)).map
                  fun version =>
                    { table := table
                      op := if isDelete then .delete else .upsert
                      id := stringOf render id
                      version := version
                      row := if isDelete then none else some (.obj fields)
                      writeKey := match Json.lookup "write_key" fields with
                        | some .null => none
                        | writeKey => writeKey }
        | _ => none
  | _ => none

end Js

namespace Postgres

/-- What realtime sends for a change of a table with `REPLICA IDENTITY FULL`. -/
def supabasePayload (table : String) : RowChange → Json
  | .insert new =>
      .obj [("table", .str table), ("eventType", .str "INSERT"), ("new", new.json)]
  | .update old new =>
      .obj [("table", .str table), ("eventType", .str "UPDATE"), ("new", new.json),
        ("old", old.json)]
  | .delete old =>
      .obj [("table", .str table), ("eventType", .str "DELETE"), ("old", old.json)]

/-- The decoded change has the table, operation, id and version of the entry. -/
def SameChange (render : Json → String) (entry : OutboxEntry) (decoded : Js.SupabaseChange) :
    Prop :=
  decoded.table = .str entry.tableName ∧ decoded.op = entry.operation ∧
    decoded.id = entry.rowId ∧ Js.toHlc render entry.version.json = some decoded.version

theorem toHlc_json (render : Json → String) (version : Version) :
    Js.toHlc render version.json =
      some { wallMs := version.wallMs, counter := .num version.counter,
             actor := version.actor } := rfl

/-- A payload that carries the image of a row is decoded to that row's id and version. -/
theorem decode_image {render : Json → String} {table : String} (event : String)
    (htable : table ≠ "")
    {payload : List (String × Json)} {image : RowImage}
    (hname : Json.lookup "table" payload = some (.str table))
    (hevent : Json.lookup "eventType" payload = some (.str event))
    (himage : Json.lookup (if event == "DELETE" then "old" else "new") payload = some image.json)
    (hid : image.id ≠ .null) :
    ∃ decoded, Js.decodeSupabaseChange render (.obj payload) = some decoded ∧
      decoded.table = .str table ∧
      decoded.op = (if event == "DELETE" then .delete else .upsert) ∧
      decoded.id = Js.stringOf render image.id ∧
      Js.toHlc render image.syncVersion.json = some decoded.version := by
  have htruthy : Json.truthy (.str table) = true := by simpa [Json.truthy] using htable
  have himageId : Json.lookup "id" (("id", image.id) :: ("sync_version", image.syncVersion.json) ::
      image.columns) = some image.id := rfl
  have hversion : Json.lookup "sync_version" (("id", image.id) ::
      ("sync_version", image.syncVersion.json) :: image.columns) =
      some image.syncVersion.json := rfl
  have hnullish : Js.nullish (some image.id) .null = image.id := by
    cases hjson : image.id with
    | null => exact absurd hjson hid
    | _ => rfl
  have hstamp : Js.nullish (some image.syncVersion.json) .null = image.syncVersion.json := rfl
  have htable' : Js.nullish (some (.str table)) .null = .str table := rfl
  simp only [RowImage.json] at himage
  simp only [Js.decodeSupabaseChange, hname, hevent, himage, himageId, hversion, hnullish, hstamp,
    htable', htruthy, toHlc_json, Option.map_some, Bool.not_true]
  cases hjson : image.id with
  | null => exact absurd hjson hid
  | _ => exact ⟨_, rfl, rfl, rfl, rfl, rfl⟩

/-- The decoded change has the operation of the recorded one, and the id and version of
the image that names the row. -/
theorem decode_payload {render : Json → String} {table : String} (htable : table ≠ "")
    {change : RowChange} (hid : change.recorded.2.1.id ≠ .null) :
    ∃ decoded, Js.decodeSupabaseChange render (supabasePayload table change) = some decoded ∧
      decoded.table = .str table ∧ decoded.op = change.recorded.1 ∧
      decoded.id = Js.stringOf render change.recorded.2.1.id ∧
      Js.toHlc render change.recorded.2.1.syncVersion.json = some decoded.version := by
  cases change with
  | insert new => exact decode_image "INSERT" htable rfl rfl rfl hid
  | update old new => exact decode_image "UPDATE" htable rfl rfl rfl hid
  | delete old => exact decode_image "DELETE" htable rfl rfl rfl hid

/-- The stamp of a version tells its counter. -/
theorem tick_json_ne (render : Json → String) (version : Version) :
    Js.toHlc render (tick version).json ≠ Js.toHlc render version.json := by
  intro h
  simp only [toHlc_json, tick, Option.some.injEq, Js.DecodedHlc.mk.injEq, Json.num.injEq] at h
  have hcounter : version.counter + 1 = version.counter := by exact_mod_cast h.2.1
  omega

/-- The two transports carry a committed change alike unless it is a delete, where the
id reads the same on both. -/
theorem transports_agree_iff {pgText jsText : Json → String} {table : String}
    {writeKey : Option String} {change : RowChange} {entry : OutboxEntry}
    (hcommitted : record pgText table writeKey change = some entry) :
    (∃ decoded, Js.decodeSupabaseChange jsText (supabasePayload table change) = some decoded ∧
      SameChange jsText entry decoded) ↔
      (∀ old, change ≠ .delete old) ∧
        some (Js.stringOf jsText change.recorded.2.1.id) =
          castText pgText change.recorded.2.1.id := by
  obtain ⟨hadmitted, hname, hop, hrowId, hversion, -⟩ := record_eq_some hcommitted
  have htable : table ≠ "" := by
    rw [← hname]
    exact OutboxEntry.tableName_ne hadmitted
  have hid : change.recorded.2.1.id ≠ .null := by
    intro hnull
    rw [hnull] at hrowId
    cases hrowId
  obtain ⟨decoded, hdecoded, hdTable, hdOp, hdId, hdVersion⟩ :=
    decode_payload htable hid
  have hthis : (∃ decoded', Js.decodeSupabaseChange jsText (supabasePayload table change) =
      some decoded' ∧ SameChange jsText entry decoded') ↔ SameChange jsText entry decoded := by
    rw [hdecoded]
    constructor
    · rintro ⟨decoded', hsame, hchange⟩
      obtain rfl := Option.some.inj hsame
      exact hchange
    · intro hchange
      exact ⟨decoded, rfl, hchange⟩
  rw [hthis, hrowId, Option.some.injEq, SameChange, hdTable, hdOp, hdId, hname, hop, hversion,
    ← hdVersion]
  cases change with
  | insert new => simp [RowChange.recorded]
  | update old new => simp [RowChange.recorded]
  | delete old =>
      have hnewer : Js.toHlc jsText (tick old.syncVersion).json ≠
          Js.toHlc jsText old.syncVersion.json := tick_json_ne jsText old.syncVersion
      simp [RowChange.recorded, hnewer]

/-- The text of a text column. -/
def asText : Json → String
  | .str text => text
  | _ => ""

def pen : RowImage :=
  { id := .str "pen", syncVersion := { wallMs := 5, counter := 0, actor := actor }
    columns := [("price", .num 2)] }

def dearerPen : RowImage :=
  { id := .str "pen", syncVersion := { wallMs := 5, counter := 1, actor := actor }
    columns := [("price", .num 3)] }

theorem updates_agree :
    (record asText "products" none (.update pen dearerPen)).isSome = true ∧
    ∃ entry decoded, record asText "products" none (.update pen dearerPen) = some entry ∧
      Js.decodeSupabaseChange asText (supabasePayload "products" (.update pen dearerPen)) =
        some decoded ∧ SameChange asText entry decoded := by
  have hcommitted : (record asText "products" none (.update pen dearerPen)).isSome = true := by
    decide
  obtain ⟨entry, hentry⟩ := Option.isSome_iff_exists.mp hcommitted
  obtain ⟨decoded, hdecoded, hsame⟩ :=
    (transports_agree_iff hentry).mpr ⟨fun old hdelete => (by cases hdelete), rfl⟩
  exact ⟨hcommitted, entry, decoded, hentry, hdecoded, hsame⟩

/-- The tombstone of a pen at counter 0 is recorded at counter 1 and decoded at 0. -/
theorem tombstones_differ :
    ∃ entry decoded, record asText "products" none (.delete pen) = some entry ∧
      Js.decodeSupabaseChange asText (supabasePayload "products" (.delete pen)) = some decoded ∧
      entry.version.counter = 1 ∧ decoded.version.wallMs = 5 ∧
      ¬SameChange asText entry decoded := by
  refine ⟨_, _, rfl, rfl, rfl, rfl, ?_⟩
  rintro ⟨-, -, -, hversion⟩
  exact tick_json_ne asText pen.syncVersion hversion

end Postgres

end ZedSync
