import ZedSync.Postgres.Attach
import ZedSync.Postgres.Prune

/-!
A database of attached tables. The tables were empty when they were attached, and their
statements are those of `ZedSync.Postgres.Attach`. Payloads have the columns of the
application and of the contract but for `created_at` and `updated_at`. While statements
leave a row its id, and store no row anew within the millisecond of its tombstone, the last
entry that the outbox has of a row is what the table has of it, and the newest.
-/

namespace ZedSync.Postgres

/-- The readings of `clock_timestamp()` that decide the version are since the epoch. -/
def RowStatement.SinceEpoch : RowStatement → Prop
  | .insert _ _ _ _ greatestClock => 0 ≤ greatestClock
  | .update _ _ _ _ clock => 0 ≤ clock
  | .delete _ => True

instance (statement : RowStatement) : Decidable statement.SinceEpoch :=
  match statement with
  | .insert _ _ _ _ _ => inferInstanceAs (Decidable (0 ≤ _))
  | .update _ _ _ _ _ => inferInstanceAs (Decidable (0 ≤ _))
  | .delete _ => inferInstanceAs (Decidable True)

structure TableExecution where
  table : String
  execution : Execution
  sinceEpoch : execution.statement.SinceEpoch

structure Server where
  tables : String → RowId → Option TableRow := fun _ _ => none
  outbox : List LogEntry := []

/-- `to_jsonb` of a stored row. -/
def TableRow.payload (row : TableRow) (id : RowId) : Option Json :=
  row.sync.syncVersion.map fun version =>
    ({ id := .str id, syncVersion := version, columns := row.columns } : RowImage).json

namespace Server

def attached (server : Server) (table : String) : AttachedTable :=
  { name := table, rows := server.tables table, outbox := server.outbox }

def step (server : Server) (event : TableExecution) : Server :=
  let after := (server.attached event.table).step event.execution
  { tables := Function.update server.tables event.table after.rows, outbox := after.outbox }

/-- The entries of a row, in the order of their commits. -/
def entries (server : Server) (table id : String) : List LogEntry :=
  server.outbox.filter fun entry => entry.tableName == table && entry.rowId == id

end Server

/-- What `record` logs of a row. -/
structure IsEntry (table : String) (execution : Execution) (id : RowId) (operation : Op)
    (version : Version) (payload : Option Json) (entry : LogEntry) : Prop where
  admitted : entry.admitted = true
  tableName : entry.tableName = table
  rowId : entry.rowId = id.val
  operation : entry.operation = operation
  version : entry.version = version
  rowData : entry.rowData = payload
  sequence : execution.sequence = some entry.sequence

theorem recordRow_eq_some {table : String} {execution : Execution} {id : RowId} {deleted : Bool}
    {row : TableRow} {entry : LogEntry}
    (h : recordRow table execution id deleted row = some entry) :
    ∃ version, row.sync.syncVersion = some version ∧
      IsEntry table execution id (if deleted then .delete else .upsert)
        (if deleted then tick version else version)
        (if deleted then none else row.payload id) entry := by
  simp only [recordRow, Option.bind_eq_some_iff, Option.map_eq_some_iff] at h
  obtain ⟨version, hversion, logged, hlogged, sequence, hsequence, rfl⟩ := h
  obtain ⟨hadmitted, htable, hoperation, hid, hlogVersion, hpayload⟩ := record_eq_some hlogged
  refine ⟨version, hversion, hadmitted, htable, ?_, ?_, ?_, ?_, hsequence⟩
  · cases deleted <;> exact (Option.some.inj hid).symm
  · cases deleted <;> exact hoperation
  · cases deleted <;> exact hlogVersion
  · cases deleted
    · simp only [Bool.false_eq_true, if_false, TableRow.payload, hversion, Option.map_some]
      exact hpayload
    · exact hpayload

/-- What a statement does that changes a row. -/
inductive RowWrite (table : AttachedTable) (execution : Execution)
    (rows : RowId → Option TableRow) (entry : LogEntry) : Prop
  | inserted (id : RowId) (new : Supplied) (columns : List (String × Json))
      (coalesceClock greatestClock : Int) (sync : SyncColumns)
      (hstatement : execution.statement = .insert id new columns coalesceClock greatestClock)
      (habsent : table.rows id = none)
      (hstamp : stamp (.insert coalesceClock greatestClock) new = some sync)
      (hrows : rows = Function.update table.rows id (some { sync := sync, columns := columns }))
      (hentry : recordRow table.name execution id false { sync := sync, columns := columns } =
        some entry)
  | updated (id newId : RowId) (new : Supplied) (columns : List (String × Json)) (clock : Int)
      (old : TableRow) (sync : SyncColumns)
      (hstatement : execution.statement = .update id newId new columns clock)
      (hold : table.rows id = some old)
      (hstamp : stamp (.update old.sync clock) new = some sync)
      (hrows : rows = Function.update (Function.update table.rows id none) newId
        (some { sync := sync, columns := columns }))
      (hentry : recordRow table.name execution newId false { sync := sync, columns := columns } =
        some entry)
  | deleted (id : RowId) (old : TableRow) (hstatement : execution.statement = .delete id)
      (hold : table.rows id = some old) (hrows : rows = Function.update table.rows id none)
      (hentry : recordRow table.name execution id true old = some entry)

theorem store_eq_recorded {table : AttachedTable} {execution : Execution} {id : RowId}
    {rows : TableRow → RowId → Option TableRow} {sync : Option SyncColumns}
    {columns : List (String × Json)} {after : RowId → Option TableRow} {entry : LogEntry}
    (h : table.store execution id rows sync columns = .recorded after entry) :
    ∃ stored, sync = some stored ∧ after = rows { sync := stored, columns := columns } ∧
      recordRow table.name execution id false { sync := stored, columns := columns } =
        some entry := by
  cases sync with
  | none => cases h
  | some stored =>
      simp only [AttachedTable.store] at h
      split at h
      · cases h
      · rename_i logged hlogged
        obtain ⟨rfl, rfl⟩ := Outcome.recorded.inj h
        exact ⟨stored, rfl, rfl, hlogged⟩

theorem execute_recorded {table : AttachedTable} {execution : Execution}
    {rows : RowId → Option TableRow} {entry : LogEntry}
    (h : table.execute execution = .recorded rows entry) :
    RowWrite table execution rows entry := by
  cases hstatement : execution.statement with
  | insert id new columns coalesceClock greatestClock =>
      simp only [AttachedTable.execute, hstatement] at h
      split at h
      · cases h
      · rename_i hfree
        obtain ⟨sync, hstamp, hrows, hentry⟩ := store_eq_recorded h
        exact .inserted id new columns coalesceClock greatestClock sync hstatement
          (Option.not_isSome_iff_eq_none.mp hfree) hstamp hrows hentry
  | update id newId new columns clock =>
      simp only [AttachedTable.execute, hstatement] at h
      split at h
      · cases h
      · rename_i old hold
        split at h
        · cases h
        · obtain ⟨sync, hstamp, hrows, hentry⟩ := store_eq_recorded h
          exact .updated id newId new columns clock old sync hstatement hold hstamp hrows hentry
  | delete id =>
      simp only [AttachedTable.execute, hstatement] at h
      split at h
      · cases h
      · rename_i old hold
        split at h
        · cases h
        · rename_i logged hlogged
          obtain ⟨rfl, rfl⟩ := Outcome.recorded.inj h
          exact .deleted id old hstatement hold rfl hlogged

theorem RowWrite.sequence {table : AttachedTable} {execution : Execution}
    {rows : RowId → Option TableRow} {entry : LogEntry}
    (h : RowWrite table execution rows entry) : execution.sequence = some entry.sequence := by
  have hlogged : ∃ id deleted row,
      recordRow table.name execution id deleted row = some entry := by
    cases h with
    | inserted id _ _ _ _ _ _ _ _ _ hentry => exact ⟨id, false, _, hentry⟩
    | updated _ newId _ _ _ _ _ _ _ _ _ hentry => exact ⟨newId, false, _, hentry⟩
    | deleted id old _ _ _ hentry => exact ⟨id, true, old, hentry⟩
  obtain ⟨id, deleted, row, hentry⟩ := hlogged
  obtain ⟨version, -, hlogs⟩ := recordRow_eq_some hentry
  exact hlogs.sequence

/-- The last entry of a row is what its table has of it: an upsert of the row as the
trigger stamped it, or a tombstone. -/
def Followed (id : RowId) (stored : Option TableRow) (entries : List LogEntry) : Prop :=
  match stored with
  | some row => ∃ (stamped : Row) (last : LogEntry), stamped.Stamped ∧
      row.sync = stamped.columns ∧ 0 ≤ stamped.updatedAt ∧ entries.getLast? = some last ∧
      last.operation = .upsert ∧ last.version = stamped.syncVersion ∧
      last.rowData = row.payload id
  | none => ∀ last, entries.getLast? = some last → last.operation = .delete ∧
      0 < last.version.counter

/-- The entries of a row begin with an upsert, ascend, and end with what its table has. -/
structure RowTracked (id : RowId) (stored : Option TableRow) (entries : List LogEntry) :
    Prop where
  created : ∀ first, entries.head? = some first → first.operation = .upsert
  ascending : StrictlyIncreasing (entries.map (·.version))
  followed : Followed id stored entries

theorem floorMs_nonneg {micros : Int} (h : 0 ≤ micros) : 0 ≤ floorMs micros := by
  simp only [floorMs]
  omega

section OneRow

variable {id : RowId} {entries : List LogEntry} {table : String} {execution : Execution}
  {entry : LogEntry} {payload : Option Json}

theorem ascending_append {version : Version} {operation : Op}
    (h : StrictlyIncreasing (entries.map (·.version)))
    (hentry : IsEntry table execution id operation version payload entry)
    (hlater : ∀ last, entries.getLast? = some last → last.version < version) :
    StrictlyIncreasing ((entries ++ [entry]).map (·.version)) := by
  rw [List.map_append]
  refine (strictlyIncreasing_concat _ _).mpr ⟨h, ?_⟩
  intro last hlast
  rw [List.getLast?_map] at hlast
  obtain ⟨before, hbefore, rfl⟩ := Option.map_eq_some_iff.mp hlast
  exact lt_of_lt_of_eq (hlater before hbefore) hentry.version.symm

theorem created_append {stored : Option TableRow} (h : RowTracked id stored entries)
    (hentry : entries = [] → entry.operation = .upsert) :
    ∀ first, (entries ++ [entry]).head? = some first → first.operation = .upsert := by
  intro first hfirst
  cases hentries : entries with
  | nil =>
      rw [hentries] at hfirst
      obtain rfl := Option.some.inj hfirst
      exact hentry hentries
  | cons head rest =>
      apply h.created
      rw [hentries] at hfirst ⊢
      exact hfirst

/-- An insert that is stamped later than the tombstone before it. -/
theorem RowTracked.insert (h : RowTracked id none entries) {createdAt : Option Int}
    {coalesceClock greatestClock : Int} {row : TableRow}
    (hsync : row.sync = (stampInsert createdAt coalesceClock greatestClock).columns)
    (hepoch : 0 ≤ greatestClock)
    (hentry : IsEntry table execution id .upsert
      (stampInsert createdAt coalesceClock greatestClock).syncVersion (row.payload id) entry)
    (hlater : ∀ last, entries.getLast? = some last →
      last.version.wallMs < floorMs (max greatestClock (createdAt.getD coalesceClock))) :
    RowTracked id (some row) (entries ++ [entry]) := by
  refine ⟨created_append h fun _ => hentry.operation, ascending_append h.ascending hentry ?_, ?_⟩
  · intro last hlast
    have hcounter := (h.followed last hlast).2
    exact (lt_fresh_iff hcounter _ _ _).mpr (hlater last hlast)
  · refine ⟨_, entry, stampInsert_stamped createdAt coalesceClock greatestClock, hsync, ?_,
      List.getLast?_concat, hentry.operation, hentry.version, hentry.rowData⟩
    exact hepoch.trans (le_max_left _ _)

theorem RowTracked.stored {old : TableRow} (h : RowTracked id (some old) entries) :
    ∃ (stamped : Row) (last : LogEntry), stamped.Stamped ∧ old.sync = stamped.columns ∧
      0 ≤ stamped.updatedAt ∧ entries.getLast? = some last ∧ last.operation = .upsert ∧
      last.version = stamped.syncVersion ∧ last.rowData = old.payload id :=
  h.followed

/-- An update of the row. -/
theorem RowTracked.update {old row : TableRow} (h : RowTracked id (some old) entries)
    {clock : Int} {new : Supplied} (hstamp : stamp (.update old.sync clock) new = some row.sync)
    {version : Version} (hversion : row.sync.syncVersion = some version)
    (hentry : IsEntry table execution id .upsert version (row.payload id) entry) :
    RowTracked id (some row) (entries ++ [entry]) := by
  obtain ⟨stamped, last, hstamped, hsync, hepoch, hlast, -, hlastVersion, -⟩ := h.stored
  have hnext := hstamped.update clock
  have hbound : (stampUpdate stamped clock).syncVersion.counter ≤ maxInt :=
    hnext.counter_le.trans (by decide)
  rw [hsync, stamp_update new hbound] at hstamp
  have hcolumns : row.sync = (stampUpdate stamped clock).columns := (Option.some.inj hstamp).symm
  obtain rfl : (stampUpdate stamped clock).syncVersion = version := by
    rw [hcolumns] at hversion
    exact Option.some.inj hversion
  refine ⟨created_append h fun _ => hentry.operation, ascending_append h.ascending hentry ?_, ?_⟩
  · intro before hbefore
    obtain rfl := Option.some.inj (hbefore.symm.trans hlast)
    rw [hlastVersion]
    exact stampUpdate_lt stamped clock hstamped.wall
  · refine ⟨_, entry, hnext, hcolumns, ?_, List.getLast?_concat, hentry.operation,
      hentry.version, hentry.rowData⟩
    have hmoved : stamped.updatedAt + 1 ≤ (stampUpdate stamped clock).updatedAt := le_max_right _ _
    omega

/-- A deletion of the row. -/
theorem RowTracked.delete {old : TableRow} (h : RowTracked id (some old) entries)
    {version : Version} (hversion : old.sync.syncVersion = some version)
    (hentry : IsEntry table execution id .delete (tick version) none entry) :
    RowTracked id none (entries ++ [entry]) := by
  obtain ⟨stamped, last, hstamped, hsync, -, hlast, -, hlastVersion, -⟩ := h.stored
  obtain rfl : stamped.syncVersion = version := by
    rw [hsync] at hversion
    exact Option.some.inj hversion
  refine ⟨created_append h ?_, ascending_append h.ascending hentry ?_, ?_⟩
  · rintro rfl
    cases hlast
  · intro before hbefore
    obtain rfl := Option.some.inj (hbefore.symm.trans hlast)
    rw [hlastVersion]
    exact tombstoneVersion_lt stamped
  · intro tombstone htombstone
    rw [List.getLast?_concat] at htombstone
    obtain rfl := Option.some.inj htombstone
    rw [hentry.version]
    exact ⟨hentry.operation, Nat.succ_pos _⟩

theorem RowTracked.changes_ascending {stored : Option TableRow}
    (h : RowTracked id stored entries) (hepoch : ∀ entry ∈ entries, 0 ≤ entry.version.wallMs) :
    (entries.map LogEntry.change).Pairwise (·.version < ·.version) := by
  have hversions := List.pairwise_map.mp h.ascending
  refine List.pairwise_map.mpr (hversions.imp_of_mem ?_)
  intro earlier later hearlier hlater hlt
  exact (Version.hlc_lt_iff (hepoch earlier hearlier) (hepoch later hlater)).mpr hlt

/-- What a register keeps of the entries: their last. -/
theorem RowTracked.kept {stored : Option TableRow} (h : RowTracked id stored entries)
    (hepoch : ∀ entry ∈ entries, 0 ≤ entry.version.wallMs) {last : LogEntry}
    (hlast : entries.getLast? = some last) :
    Newest.kept (·.version) Js.creates (entries.map LogEntry.change) = some last.change := by
  apply Newest.kept_last_ascending
  · rw [List.getLast?_map, hlast]
    rfl
  · exact h.changes_ascending hepoch
  · intro first hfirst
    rw [List.head?_map] at hfirst
    obtain ⟨head, hhead, rfl⟩ := Option.map_eq_some_iff.mp hfirst
    simp [Js.creates, LogEntry.change, h.created head hhead]

end OneRow

/-- Every row is tracked by its entries, which the table has checked. -/
structure Server.Tracked (server : Server) : Prop where
  row : ∀ table (id : RowId), RowTracked id (server.tables table id) (server.entries table id.val)
  admitted : ∀ entry ∈ server.outbox, entry.admitted = true
  epoch : ∀ entry ∈ server.outbox, 0 ≤ entry.version.wallMs

/-- The statement changes a row. -/
def AttachedTable.Stores (table : AttachedTable) (execution : Execution) : Prop :=
  ∃ rows entry, table.execute execution = .recorded rows entry

/-- A row that is stored keeps its id, and one that is stored anew is stamped in a later
millisecond than its tombstone. -/
def Server.Faithful (server : Server) (event : TableExecution) : Prop :=
  (server.attached event.table).Stores event.execution →
    match event.execution.statement with
    | .insert id new _ coalesceClock greatestClock =>
        ∀ tombstone, (server.entries event.table id.val).getLast? = some tombstone →
          tombstone.version.wallMs <
            floorMs (max greatestClock (new.createdAt.getD coalesceClock))
    | .update id newId _ _ _ => newId = id
    | .delete _ => True

namespace Server

variable {server after : Server} {table : String} {id : RowId} {event : TableExecution}

theorem mem_entries {text : String} {entry : LogEntry} : entry ∈ server.entries table text ↔
    entry ∈ server.outbox ∧ entry.tableName = table ∧ entry.rowId = text := by
  simp [entries]

/-- One entry more is one more of its row. -/
theorem entries_own {execution : Execution} {operation : Op} {version : Version}
    {payload : Option Json} {entry : LogEntry}
    (hentry : IsEntry table execution id operation version payload entry)
    (houtbox : after.outbox = server.outbox ++ [entry]) :
    after.entries table id.val = server.entries table id.val ++ [entry] := by
  simp [entries, houtbox, List.filter_append, hentry.tableName, hentry.rowId]

/-- And of no other row. -/
theorem entries_other {execution : Execution} {operation : Op} {version : Version}
    {payload : Option Json} {entry : LogEntry}
    (hentry : IsEntry table execution id operation version payload entry)
    (houtbox : after.outbox = server.outbox ++ [entry]) {table' text : String}
    (hother : ¬ (table' = table ∧ text = id.val)) :
    after.entries table' text = server.entries table' text := by
  have hnone : [entry].filter (fun entry => entry.tableName == table' && entry.rowId == text) =
      [] := by
    simp only [List.filter_eq_nil_iff, List.mem_singleton, forall_eq, Bool.and_eq_true,
      beq_iff_eq, hentry.tableName, hentry.rowId]
    exact fun hsame => hother ⟨hsame.1.symm, hsame.2.symm⟩
  simp only [entries, houtbox, List.filter_append, hnone, List.append_nil]

/-- A server that logs one entry more, of a row that is tracked with it. -/
theorem Tracked.append (h : server.Tracked) {execution : Execution} {operation : Op}
    {version : Version} {payload : Option Json} {entry : LogEntry} {stored : Option TableRow}
    (hentry : IsEntry table execution id operation version payload entry)
    (hepoch : 0 ≤ version.wallMs)
    (houtbox : after.outbox = server.outbox ++ [entry])
    (htables : after.tables =
      Function.update server.tables table (Function.update (server.tables table) id stored))
    (hrow : RowTracked id stored (server.entries table id.val ++ [entry])) : after.Tracked := by
  refine ⟨?_, ?_, ?_⟩
  · intro table' id'
    rw [htables]
    by_cases hsame : table' = table ∧ id' = id
    · obtain ⟨rfl, rfl⟩ := hsame
      rw [entries_own hentry houtbox, Function.update_self, Function.update_self]
      exact hrow
    · have hkept : Function.update server.tables table
          (Function.update (server.tables table) id stored) table' id' =
            server.tables table' id' := by
        by_cases htable : table' = table
        · subst htable
          rw [Function.update_self, Function.update_of_ne fun hid => hsame ⟨rfl, hid⟩]
        · rw [Function.update_of_ne htable]
      rw [entries_other hentry houtbox fun h => hsame ⟨h.1, Subtype.ext h.2⟩, hkept]
      exact h.row table' id'
  · intro other hother
    rw [houtbox] at hother
    rcases List.mem_append.mp hother with hold | hnew
    · exact h.admitted other hold
    · rw [List.mem_singleton.mp hnew]
      exact hentry.admitted
  · intro other hother
    rw [houtbox] at hother
    rcases List.mem_append.mp hother with hold | hnew
    · exact h.epoch other hold
    · rw [List.mem_singleton.mp hnew, hentry.version]
      exact hepoch

theorem step_recorded {rows : RowId → Option TableRow} {entry : LogEntry}
    (h : (server.attached event.table).execute event.execution = .recorded rows entry) :
    (server.step event).tables = Function.update server.tables event.table rows ∧
      (server.step event).outbox = server.outbox ++ [entry] := by
  have hafter : (server.attached event.table).step event.execution =
      { server.attached event.table with
        rows := rows, outbox := server.outbox ++ [entry] } := by
    simp only [AttachedTable.step, h]
    rfl
  unfold Server.step
  rw [hafter]
  exact ⟨rfl, rfl⟩

/-- A statement that changes no row leaves the server as it was. -/
theorem step_kept (h : ¬ (server.attached event.table).Stores event.execution) :
    server.step event = server := by
  have hsame : (server.attached event.table).step event.execution =
      server.attached event.table := by
    unfold AttachedTable.step
    split
    · rfl
    · rfl
    · rename_i rows entry hrecorded
      exact absurd ⟨rows, entry, hrecorded⟩ h
  unfold Server.step
  rw [hsame]
  simp only [attached, Function.update_eq_self]

/-- Faithful statements keep every row tracked. -/
theorem Tracked.step (h : server.Tracked) (hfaithful : server.Faithful event) :
    (server.step event).Tracked := by
  by_cases hstores : (server.attached event.table).Stores event.execution
  · have hcondition := hfaithful hstores
    obtain ⟨rows, entry, hrecorded⟩ := hstores
    obtain ⟨htables, houtbox⟩ := step_recorded hrecorded
    have hsinceEpoch := event.sinceEpoch
    cases execute_recorded hrecorded with
    | inserted id new columns coalesceClock greatestClock sync hstatement habsent hstamp hrows
        hentry =>
        rw [hstatement] at hcondition hsinceEpoch
        rw [stamp_insert] at hstamp
        obtain rfl := Option.some.inj hstamp
        obtain ⟨version, hversion, hlogged⟩ := recordRow_eq_some hentry
        obtain rfl := Option.some.inj hversion
        have hrow := h.row event.table id
        have hnone : server.tables event.table id = none := habsent
        rw [hnone] at hrow
        have hwall : 0 ≤ max greatestClock (new.createdAt.getD coalesceClock) :=
          le_trans hsinceEpoch (le_max_left _ _)
        refine h.append hlogged (floorMs_nonneg hwall) houtbox ?_
          (hrow.insert rfl hsinceEpoch hlogged hcondition)
        rw [htables, hrows]
        rfl
    | updated id newId new columns clock old sync hstatement hold hstamp hrows hentry =>
        rw [hstatement] at hcondition
        obtain rfl : newId = id := hcondition
        obtain ⟨version, hversion, hlogged⟩ := recordRow_eq_some hentry
        have hrow := h.row event.table newId
        have hsome : server.tables event.table newId = some old := hold
        rw [hsome] at hrow
        have hnext := hrow.update hstamp hversion hlogged
        refine h.append hlogged ?_ houtbox ?_ hnext
        · obtain ⟨stamped, last, hstamped, hsync, hepoch, -⟩ := hnext.stored
          obtain rfl : stamped.syncVersion = version := by
            have hsame := hversion
            rw [hsync] at hsame
            exact Option.some.inj hsame
          rw [if_neg Bool.false_ne_true, hstamped.wall]
          exact floorMs_nonneg hepoch
        · rw [htables, hrows, Function.update_idem]
          rfl
    | deleted id old hstatement hold hrows hentry =>
        obtain ⟨version, hversion, hlogged⟩ := recordRow_eq_some hentry
        have hrow := h.row event.table id
        have hsome : server.tables event.table id = some old := hold
        rw [hsome] at hrow
        refine h.append hlogged ?_ houtbox ?_ (hrow.delete hversion hlogged)
        · obtain ⟨stamped, last, hstamped, hsync, hepoch, -⟩ := hrow.stored
          obtain rfl : stamped.syncVersion = version := by
            rw [hsync] at hversion
            exact Option.some.inj hversion
          change 0 ≤ stamped.syncVersion.wallMs
          rw [hstamped.wall]
          exact floorMs_nonneg hepoch
        · rw [htables, hrows]
          rfl
  · rw [step_kept hstores]
    exact h

/-- The last entry of a row is the last of the outbox for it. -/
theorem lastOfRow (hsequences : server.outbox.Pairwise (·.sequence < ·.sequence))
    {table id : String} {last : LogEntry}
    (hlast : (server.entries table id).getLast? = some last) : LastOfRow server.outbox last := by
  obtain ⟨hmem, htable, hid⟩ := mem_entries.mp (List.mem_of_getLast? hlast)
  refine ⟨hmem, ?_⟩
  intro other hother hsame
  obtain ⟨htable', hid'⟩ := LogEntry.sameRow_iff.mp hsame
  have hin : other ∈ server.entries table id :=
    mem_entries.mpr ⟨hother, htable'.symm.trans htable, hid'.symm.trans hid⟩
  have hsorted : (server.entries table id).Pairwise (·.sequence < ·.sequence) :=
    hsequences.sublist List.filter_sublist
  obtain ⟨earlier, hsplit⟩ := List.getLast?_eq_some_iff.mp hlast
  rw [hsplit] at hin hsorted
  rcases List.mem_append.mp hin with hbefore | hself
  · exact ((List.pairwise_append.mp hsorted).2.2 other hbefore last
      (List.mem_singleton_self last)).le
  · rw [List.mem_singleton.mp hself]

end Server

end ZedSync.Postgres
