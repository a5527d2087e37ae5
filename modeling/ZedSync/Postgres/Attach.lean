import ZedSync.Postgres.CatchUp
import ZedSync.Postgres.Stamp

/-!
A table with `zed_sync_attach`. Its rows may be older than the triggers: their versions
are null until an update stamps them. Whether a statement gets past the triggers and the
checks of `zed_sync.outbox` is decided here for any rows and any statements. What raises is
the name of the table, the write key of the transaction, an exhausted `zed_sync.sequence`,
and the deletion of a row that was never stamped: its tombstone has no version.
-/

namespace ZedSync.Postgres

/-- The `::text` of a valid id. -/
abbrev RowId := { text : String // lengthBetween text = true }

structure TableRow where
  sync : SyncColumns
  columns : List (String × Json) := []
  deriving Repr

structure AttachedTable where
  name : String
  rows : RowId → Option TableRow
  outbox : List LogEntry := []

/-- A statement on one row. -/
inductive RowStatement where
  | insert (id : RowId) (new : Supplied) (columns : List (String × Json))
      (coalesceClock greatestClock : Int)
  | update (id newId : RowId) (new : Supplied) (columns : List (String × Json)) (clock : Int)
  | delete (id : RowId)

/-- A statement with the setting `zed_sync.write_key` of its transaction, what `nextval`
returns, none once the sequence is used up and it raises, and `now()`. -/
structure Execution where
  statement : RowStatement
  writeKey : Option String := none
  sequence : Option Nat := none
  now : Int := 0

/-- How a statement ends: it finds no row, or its id is taken, and nothing happens; a
trigger or a check of the outbox raises; or the row is changed, and recorded. -/
inductive Outcome where
  | idle
  | raised
  | recorded (rows : RowId → Option TableRow) (entry : LogEntry)

def idText : Json → String
  | .str text => text
  | _ => ""

/-- `record` reads one row, `OLD` on a `DELETE` and `NEW` otherwise. Of a null version the
version of the entry is null, which the column refuses. -/
def recordRow (table : String) (execution : Execution) (id : RowId) (deleted : Bool)
    (row : TableRow) : Option LogEntry :=
  row.sync.syncVersion.bind fun version =>
    let image : RowImage := { id := .str id, syncVersion := version, columns := row.columns }
    (record idText table execution.writeKey
        (if deleted then .delete image else .insert image)).bind fun entry =>
      execution.sequence.map fun sequence =>
        { entry with sequence := sequence, committedAt := execution.now }

namespace AttachedTable

def setRow (table : AttachedTable) (id : RowId) (row : Option TableRow) :
    RowId → Option TableRow :=
  Function.update table.rows id row

/-- The row is stored and then recorded. -/
def store (table : AttachedTable) (execution : Execution) (id : RowId)
    (rows : TableRow → RowId → Option TableRow) (sync : Option SyncColumns)
    (columns : List (String × Json)) : Outcome :=
  match sync with
  | none => .raised
  | some sync =>
      let row : TableRow := { sync := sync, columns := columns }
      match recordRow table.name execution id false row with
      | none => .raised
      | some entry => .recorded (rows row) entry

def execute (table : AttachedTable) (execution : Execution) : Outcome :=
  match execution.statement with
  | .insert id new columns coalesceClock greatestClock =>
      if (table.rows id).isSome then .idle
      else
        table.store execution id (fun row => table.setRow id (some row))
          (stamp (.insert coalesceClock greatestClock) new) columns
  | .update id newId new columns clock =>
      match table.rows id with
      | none => .idle
      | some old =>
          if newId ≠ id ∧ (table.rows newId).isSome then .idle
          else
            table.store execution newId
              (fun row => Function.update (table.setRow id none) newId (some row))
              (stamp (.update old.sync clock) new) columns
  | .delete id =>
      match table.rows id with
      | none => .idle
      | some old =>
          match recordRow table.name execution id true old with
          | none => .raised
          | some entry => .recorded (table.setRow id none) entry

/-- A statement that raises is rolled back. -/
def step (table : AttachedTable) (execution : Execution) : AttachedTable :=
  match table.execute execution with
  | .idle | .raised => table
  | .recorded rows entry => { table with rows := rows, outbox := table.outbox ++ [entry] }

/-- The triggers let the statement through, and record what it changes with its version. -/
def Accepts (table : AttachedTable) (execution : Execution) : Prop :=
  match table.execute execution with
  | .idle => True
  | .raised => False
  | .recorded _ entry => (table.step execution).outbox = table.outbox ++ [entry]

/-- What `record` needs beside the row. -/
def Recordable (table : AttachedTable) (execution : Execution) : Prop :=
  tableNamePattern table.name = true ∧
    (execution.writeKey.filter (· ≠ "")).all lengthBetween = true ∧
    execution.sequence.isSome = true

/-- What a statement needs to pass: a deleted row has a version, and a counter that is
counted on is not the last `int`. -/
def Passes (table : AttachedTable) (execution : Execution) : Prop :=
  match execution.statement with
  | .insert id _ _ _ _ => table.rows id = none → table.Recordable execution
  | .update id newId _ _ clock =>
      ∀ old, table.rows id = some old → (newId ≠ id → table.rows newId = none) →
        table.Recordable execution ∧
          ∀ version, old.sync.syncVersion = some version →
            version.wallMs = floorMs (old.sync.nextUpdate clock) → version.counter < maxInt
  | .delete id =>
      ∀ old, table.rows id = some old →
        table.Recordable execution ∧
          ∃ version, old.sync.syncVersion = some version ∧ version.counter < maxInt

/-- `record` on a row with a valid id and a version. -/
theorem record_isSome_iff (table : String) (writeKey : Option String) {change : RowChange}
    (id : RowId) (hid : change.recorded.2.1.id = .str id.val)
    (hpayload : (change.recorded.1 == .delete) = change.recorded.2.2.2.isNone) :
    (record idText table writeKey change).isSome = true ↔
      change.recorded.2.2.1.counter ≤ maxInt ∧ tableNamePattern table = true ∧
        (writeKey.filter (· ≠ "")).all lengthBetween = true := by
  have hvalid : lengthBetween id.val = true := id.property
  have htext : castText idText change.recorded.2.1.id = some id.val := by
    rw [hid]
    rfl
  simp only [record, htext, Option.bind_some, OutboxEntry.admitted, hvalid, hpayload, BEq.rfl,
    Bool.and_true, Bool.and_eq_true]
  split
  · rename_i hlarge
    simp [not_le.mpr hlarge]
  · rename_i hsmall
    rw [Option.isSome_ite]
    simp only [not_lt.mp hsmall, and_true, true_and]

theorem recordRow_isSome_iff (table : AttachedTable) (execution : Execution) (id : RowId)
    (deleted : Bool) (row : TableRow) :
    (recordRow table.name execution id deleted row).isSome = true ↔
      table.Recordable execution ∧ ∃ version, row.sync.syncVersion = some version ∧
        version.counter + (if deleted then 1 else 0) ≤ maxInt := by
  cases hversion : row.sync.syncVersion with
  | none => simp [recordRow, hversion]
  | some version =>
      let image : RowImage := { id := .str id, syncVersion := version, columns := row.columns }
      let change : RowChange := if deleted then .delete image else .insert image
      have hentry : (recordRow table.name execution id deleted row).isSome =
          ((record idText table.name execution.writeKey change).isSome &&
            execution.sequence.isSome) := by
        simp only [recordRow, hversion, Option.bind_some, change, image]
        cases record idText table.name execution.writeKey _ with
        | none => rfl
        | some entry => simp
      have hrecorded : (record idText table.name execution.writeKey change).isSome = true ↔
          version.counter + (if deleted then 1 else 0) ≤ maxInt ∧
            tableNamePattern table.name = true ∧
              (execution.writeKey.filter (· ≠ "")).all lengthBetween = true := by
        cases deleted with
        | true => exact record_isSome_iff table.name execution.writeKey id rfl rfl
        | false => exact record_isSome_iff table.name execution.writeKey id rfl rfl
      rw [hentry, Bool.and_eq_true, hrecorded]
      simp only [Recordable, Option.some.injEq, exists_eq_left']
      constructor
      · rintro ⟨⟨hcounter, hname, hkey⟩, hsequence⟩
        exact ⟨⟨hname, hkey, hsequence⟩, hcounter⟩
      · rintro ⟨⟨hname, hkey, hsequence⟩, hcounter⟩
        exact ⟨⟨hcounter, hname, hkey⟩, hsequence⟩

theorem accepts_iff (table : AttachedTable) (execution : Execution) :
    table.Accepts execution ↔ table.execute execution ≠ .raised := by
  unfold Accepts
  cases houtcome : table.execute execution with
  | idle => simp
  | raised => simp
  | recorded rows entry => simp [step, houtcome]

/-- A stamped row is stored unless it cannot be recorded. -/
theorem store_raises_iff (table : AttachedTable) (execution : Execution) (id : RowId)
    (rows : TableRow → RowId → Option TableRow) {sync : Option SyncColumns}
    (hcounter : ∀ columns, sync = some columns →
      ∃ version, columns.syncVersion = some version ∧ version.counter ≤ maxInt)
    (columns : List (String × Json)) :
    table.store execution id rows sync columns ≠ .raised ↔
      sync.isSome = true ∧ table.Recordable execution := by
  cases sync with
  | none => simp [store]
  | some sync =>
      obtain ⟨version, hversion, hle⟩ := hcounter sync rfl
      have hrecord := recordRow_isSome_iff table execution id false
        { sync := sync, columns := columns }
      cases hentry : recordRow table.name execution id false
          { sync := sync, columns := columns } with
      | none => simp_all [store]
      | some entry => simp_all [store]

/-- What `stamp` stores has a version with a counter in range. -/
theorem stamp_version {op : StampOp} {new : Supplied} {columns : SyncColumns}
    (h : stamp op new = some columns) :
    ∃ version, columns.syncVersion = some version ∧ version.counter ≤ maxInt := by
  cases op with
  | insert coalesceClock greatestClock =>
      simp only [stamp] at h
      obtain ⟨version, hversion, rfl⟩ := Option.map_eq_some_iff.mp h
      exact ⟨version, rfl, (nextHlcInt_eq_some_iff.mp hversion).2⟩
  | update old clock =>
      simp only [stamp] at h
      obtain ⟨version, hversion, rfl⟩ := Option.map_eq_some_iff.mp h
      exact ⟨version, rfl, (nextHlcInt_eq_some_iff.mp hversion).2⟩

theorem stamp_update_isSome_iff (old : SyncColumns) (clock : Int) (new : Supplied) :
    (stamp (.update old clock) new).isSome = true ↔
      ∀ version, old.syncVersion = some version →
        version.wallMs = floorMs (old.nextUpdate clock) → version.counter < maxInt := by
  simp only [stamp, Option.isSome_map]
  exact nextHlcInt_isSome_iff _ _

/-- Exactly the statements that pass are accepted. -/
theorem accepts_iff_passes (table : AttachedTable) (execution : Execution) :
    table.Accepts execution ↔ table.Passes execution := by
  rw [accepts_iff]
  cases hstatement : execution.statement with
  | insert id new columns coalesceClock greatestClock =>
      simp only [execute, Passes, hstatement]
      cases hrow : table.rows id with
      | some old => simp
      | none =>
          simp only [Option.isSome_none, Bool.false_eq_true, if_false, true_implies]
          rw [store_raises_iff table execution id _ (fun _ h => stamp_version h)]
          exact and_iff_right rfl
  | update id newId new columns clock =>
      simp only [execute, Passes, hstatement]
      cases hrow : table.rows id with
      | none => simp
      | some old =>
          simp only [Option.some.injEq, forall_eq']
          by_cases htaken : newId ≠ id ∧ (table.rows newId).isSome = true
          · have hnot : ¬ (newId ≠ id → table.rows newId = none) := by
              intro hfree
              rw [hfree htaken.1] at htaken
              exact absurd htaken.2 (by simp)
            simp [if_pos htaken, hnot]
          · have hfree : newId ≠ id → table.rows newId = none := by
              intro hne
              exact Option.not_isSome_iff_eq_none.mp fun hsome => htaken ⟨hne, hsome⟩
            rw [if_neg htaken,
              store_raises_iff table execution newId _ (fun _ h => stamp_version h),
              stamp_update_isSome_iff, and_comm]
            exact ⟨fun h _ => h, fun h => h hfree⟩
  | delete id =>
      simp only [execute, Passes, hstatement]
      cases hrow : table.rows id with
      | none => simp
      | some old =>
          have hrecord := recordRow_isSome_iff table execution id true old
          simp only [if_true, Nat.succ_le_iff] at hrecord
          simp only [Option.some.injEq, forall_eq']
          rw [← hrecord]
          cases recordRow table.name execution id true old with
          | none => simp
          | some entry => simp

/-- The version of a row is the trigger's: null until it first stamps the row, and with
few counts in the millisecond of the row's `updated_at` from then on. -/
def Tidy (sync : SyncColumns) : Prop :=
  ∀ version, sync.syncVersion = some version → ∃ updatedAt, sync.updatedAt = some updatedAt ∧
    version.wallMs = floorMs updatedAt ∧ (version.counter : Int) ≤ updatedAt % 1000

def TidyRows (table : AttachedTable) : Prop :=
  ∀ id row, table.rows id = some row → Tidy row.sync

theorem Tidy.counter_lt {sync : SyncColumns} (h : Tidy sync) {version : Version}
    (hversion : sync.syncVersion = some version) : version.counter < maxInt := by
  obtain ⟨updatedAt, -, -, hcounter⟩ := h version hversion
  simp only [maxInt]
  omega

theorem tidy_stamp {op : StampOp} {new : Supplied} {columns : SyncColumns}
    (hold : ∀ old clock, op = .update old clock → Tidy old) (h : stamp op new = some columns) :
    Tidy columns := by
  cases op with
  | insert coalesceClock greatestClock =>
      simp only [stamp] at h
      obtain ⟨version, hversion, rfl⟩ := Option.map_eq_some_iff.mp h
      intro stored hstored
      obtain rfl := Option.some.inj hstored
      rw [← (nextHlcInt_eq_some_iff.mp hversion).1]
      exact ⟨_, rfl, rfl, Int.emod_nonneg _ (by decide)⟩
  | update old clock =>
      simp only [stamp] at h
      obtain ⟨version, hversion, rfl⟩ := Option.map_eq_some_iff.mp h
      intro stored hstored
      obtain rfl := Option.some.inj hstored
      rw [← (nextHlcInt_eq_some_iff.mp hversion).1]
      refine ⟨_, rfl, rfl, ?_⟩
      cases hprev : old.syncVersion with
      | none => exact Int.emod_nonneg _ (by decide)
      | some prev =>
          obtain ⟨before, hbefore, hwall, hcounter⟩ := hold old clock rfl prev hprev
          have hupdated : old.nextUpdate clock = max clock (before + 1) := by
            simp [SyncColumns.nextUpdate, hbefore]
          rw [hupdated]
          exact nextHlc_counter (Int.lt_of_add_one_le (le_max_right _ _)) hwall hcounter

/-- What `store` leaves where it succeeds. -/
theorem store_recorded {table : AttachedTable} {execution : Execution} {id : RowId}
    {rows : TableRow → RowId → Option TableRow} {sync : Option SyncColumns}
    {columns : List (String × Json)} {after : RowId → Option TableRow} {entry : LogEntry}
    (h : table.store execution id rows sync columns = .recorded after entry) :
    ∃ stored, sync = some stored ∧ after = rows { sync := stored, columns := columns } := by
  cases sync with
  | none => cases h
  | some stored =>
      simp only [store] at h
      split at h
      · cases h
      · obtain ⟨rfl, -⟩ := Outcome.recorded.inj h
        exact ⟨stored, rfl, rfl⟩

/-- A row may be set to a tidy one, or taken out. -/
theorem tidy_update {rows : RowId → Option TableRow}
    (h : ∀ id row, rows id = some row → Tidy row.sync) (id : RowId) {stored : Option TableRow}
    (hstored : ∀ row, stored = some row → Tidy row.sync) :
    ∀ other row, Function.update rows id stored other = some row → Tidy row.sync := by
  intro other row hrow
  by_cases hother : other = id
  · rw [hother, Function.update_self] at hrow
    exact hstored row hrow
  · rw [Function.update_of_ne hother] at hrow
    exact h other row hrow

/-- The triggers keep the versions of all rows their own. -/
theorem TidyRows.step {table : AttachedTable} (h : table.TidyRows) (execution : Execution) :
    (table.step execution).TidyRows := by
  cases houtcome : table.execute execution with
  | idle | raised =>
      simp only [AttachedTable.step, houtcome]
      exact h
  | recorded rows entry =>
      simp only [AttachedTable.step, houtcome]
      cases hstatement : execution.statement with
      | insert id new columns coalesceClock greatestClock =>
          simp only [execute, hstatement] at houtcome
          split at houtcome
          · cases houtcome
          · obtain ⟨stored, hstored, rfl⟩ := store_recorded houtcome
            refine tidy_update h id ?_
            rintro _ ⟨⟩
            exact tidy_stamp (by simp) hstored
      | update id newId new columns clock =>
          simp only [execute, hstatement] at houtcome
          split at houtcome
          · cases houtcome
          · rename_i old hold
            split at houtcome
            · cases houtcome
            · obtain ⟨stored, hstored, rfl⟩ := store_recorded houtcome
              -- The row leaves its old id before it is stored under the new one.
              refine tidy_update (tidy_update h id (by simp)) newId ?_
              rintro _ ⟨⟩
              refine tidy_stamp ?_ hstored
              rintro _ _ ⟨⟩
              exact h id old hold
      | delete id =>
          simp only [execute, hstatement] at houtcome
          split at houtcome
          · cases houtcome
          · split at houtcome
            · cases houtcome
            · obtain ⟨rfl, -⟩ := Outcome.recorded.inj houtcome
              exact tidy_update h id (by simp)

/-- What a statement needs in a table with no versions but the trigger's. -/
def MeetsVersions (table : AttachedTable) (execution : Execution) : Prop :=
  match execution.statement with
  | .insert id _ _ _ _ => table.rows id = none → table.Recordable execution
  | .update id newId _ _ _ =>
      (table.rows id).isSome = true → (newId ≠ id → table.rows newId = none) →
        table.Recordable execution
  | .delete id =>
      ∀ old, table.rows id = some old →
        table.Recordable execution ∧ old.sync.syncVersion.isSome = true

theorem TidyRows.passes_iff {table : AttachedTable} (h : table.TidyRows) (execution : Execution) :
    table.Passes execution ↔ table.MeetsVersions execution := by
  cases hstatement : execution.statement with
  | insert id new columns coalesceClock greatestClock => simp [Passes, MeetsVersions, hstatement]
  | update id newId new columns clock =>
      simp only [Passes, MeetsVersions, hstatement, Option.isSome_iff_exists]
      constructor
      · rintro hpasses ⟨old, hold⟩ hfree
        exact (hpasses old hold hfree).1
      · intro hmeets old hold hfree
        exact ⟨hmeets ⟨old, hold⟩ hfree, fun version hversion _ =>
          (h id old hold).counter_lt hversion⟩
  | delete id =>
      simp only [Passes, MeetsVersions, hstatement, Option.isSome_iff_exists]
      constructor
      · intro hpasses old hold
        obtain ⟨hrecordable, version, hversion, -⟩ := hpasses old hold
        exact ⟨hrecordable, version, hversion⟩
      · intro hmeets old hold
        obtain ⟨hrecordable, version, hversion⟩ := hmeets old hold
        exact ⟨hrecordable, version, hversion, (h id old hold).counter_lt hversion⟩

/-- Any statements on any rows: none raises in a trigger, and each is recorded with a
version, exactly where each passes. Where every version is null or the trigger's own, a
statement that changes a row passes if the table, the write key and the sequence let it be
recorded, and a row that it deletes was stamped. -/
theorem attached_rows_are_recorded_iff (table : AttachedTable) (executions : List Execution) :
    (Run.Along step Accepts table executions ↔ Run.Along step Passes table executions) ∧
      (table.TidyRows →
        (Run.Along step Accepts table executions ↔
          Run.Along step MeetsVersions table executions)) := by
  refine ⟨Run.along_congr accepts_iff_passes table executions, fun htidy => ?_⟩
  apply Run.along_iff_of_inv (J := TidyRows) (fun _ execution h => h.step execution) _ executions
    htidy
  intro before execution h
  exact (accepts_iff_passes before execution).trans (h.passes_iff execution)

/-- A table with one row, which is older than the triggers. -/
def oldTodos : AttachedTable :=
  { name := "todos"
    rows := fun id =>
      if id.val = "a" then some { sync := { createdAt := some 0, updatedAt := some 0 } } else none }

/-- Its deletion raises; after an update that stamps the row it is recorded. -/
theorem unstamped_row_cannot_be_deleted :
    let id : RowId := ⟨"a", by decide⟩
    let deletion : Execution := { statement := .delete id, sequence := some 1 }
    ¬ Run.Along step Accepts oldTodos [deletion] ∧ oldTodos.TidyRows ∧
      oldTodos.Recordable deletion := by
  intro id deletion
  have hraised : oldTodos.execute deletion = .raised := rfl
  refine ⟨?_, ?_, by decide, by decide, by decide⟩
  · rintro ⟨haccepts, -⟩
    simp [Accepts, hraised] at haccepts
  · intro other row hrow version hversion
    simp only [oldTodos] at hrow
    split at hrow
    · obtain rfl := Option.some.inj hrow
      cases hversion
    · cases hrow

end AttachedTable

end ZedSync.Postgres
