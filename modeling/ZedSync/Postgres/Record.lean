import ZedSync.Postgres.Outbox

/-!
The `record` trigger of `postgres/zed_sync.sql` on whole row images, with the checks
of the `zed_sync.outbox` table it inserts into. The `sequence` and the `committed_at`
of an entry are defaults of the table, and are added where the entry is inserted.
-/

namespace ZedSync.Postgres

/-- `::text` of a column value, which `render` writes for the column's type; of a null,
none. -/
def castText (render : Json → String) : Json → Option String
  | .null => none
  | value => some (render value)

/-- A row of an attached table: its `id`, its `sync_version`, and its other columns. -/
structure RowImage where
  id : Json
  syncVersion : Version
  columns : List (String × Json) := []
  deriving Repr

/-- `jsonb_build_object('wall_ms', .., 'counter', .., 'actor', ..)`. -/
def Version.json (version : Version) : Json :=
  .obj [("wall_ms", .num version.wallMs), ("counter", .num version.counter),
    ("actor", .str version.actor)]

/-- `to_jsonb` of a row. -/
def RowImage.json (image : RowImage) : Json :=
  .obj (("id", image.id) :: ("sync_version", image.syncVersion.json) :: image.columns)

/-- What fires a row trigger: `TG_OP`, with its `OLD` and `NEW`. -/
inductive RowChange where
  | insert (new : RowImage)
  | update (old new : RowImage)
  | delete (old : RowImage)
  deriving Repr

/-- The columns `record` inserts. -/
structure OutboxEntry extends OutboxRow where
  rowData : Option Json
  writeKey : Option String
  deriving Repr

/-- `'^[a-z][a-z0-9_]{0,62}$'`. -/
def tableNamePattern (name : String) : Bool :=
  match name.toList with
  | [] => false
  | first :: rest =>
      first.isLower && rest.length ≤ 62 &&
        rest.all fun c => c.isLower || c.isDigit || c == '_'

def lengthBetween (text : String) : Bool := 1 ≤ text.length && text.length ≤ 512

/-- The `CHECK`s of the table. -/
def OutboxEntry.admitted (entry : OutboxEntry) : Bool :=
  tableNamePattern entry.tableName && lengthBetween entry.rowId &&
    entry.writeKey.all lengthBetween && (entry.operation == .delete) == entry.rowData.isNone

/-- The largest `int`. -/
def maxInt : Nat := 2147483647

/-- The row as the trigger records it: the operation, the image that names the row,
the version, which a deleted row takes one tick past its own, and the payload. -/
def RowChange.recorded : RowChange → Op × RowImage × Version × Option Json
  | .insert new | .update _ new => (.upsert, new, new.syncVersion, some new.json)
  | .delete old => (.delete, old, tick old.syncVersion, none)

/-- `record`: the entry it inserts, or none where it raises and the statement fails: the
counter is an `int`, and the table checks the entry. A write key of `''` is none. -/
def record (render : Json → String) (table : String) (writeKey : Option String)
    (change : RowChange) : Option OutboxEntry :=
  let (operation, image, version, payload) := change.recorded
  if maxInt < version.counter then none
  else
    (castText render image.id).bind fun rowId =>
      let entry : OutboxEntry :=
        { tableName := table, operation := operation, rowId := rowId, version := version,
          rowData := payload, writeKey := writeKey.filter (· ≠ "") }
      if entry.admitted then some entry else none

/-- What a recorded entry says of the change. -/
theorem record_eq_some {render : Json → String} {table : String} {writeKey : Option String}
    {change : RowChange} {entry : OutboxEntry}
    (h : record render table writeKey change = some entry) :
    entry.admitted = true ∧ entry.tableName = table ∧ entry.operation = change.recorded.1 ∧
      castText render change.recorded.2.1.id = some entry.rowId ∧
      entry.version = change.recorded.2.2.1 ∧ entry.rowData = change.recorded.2.2.2 := by
  simp only [record] at h
  split at h
  · cases h
  · simp only [Option.bind_eq_some_iff] at h
    obtain ⟨rowId, hid, hentry⟩ := h
    split at hentry
    · rename_i hadmitted
      obtain rfl := Option.some.inj hentry
      exact ⟨hadmitted, rfl, rfl, hid, rfl, rfl⟩
    · cases hentry

/-- A committed entry names its table. -/
theorem OutboxEntry.tableName_ne {entry : OutboxEntry} (h : entry.admitted = true) :
    entry.tableName ≠ "" := by
  rintro hempty
  simp [admitted, tableNamePattern, hempty] at h

end ZedSync.Postgres
