import ZedSync.Postgres.Replication

/-!
The replicas of a database of attached tables: what they show after the outbox is compared
with the rows of the tables.
-/

namespace ZedSync.Postgres

theorem LogEntry.separable {entry : LogEntry} (h : entry.admitted = true) :
    Js.Separable entry.change.table := by
  simp only [OutboxEntry.admitted, Bool.and_eq_true] at h
  exact tableNamePattern_separable h.1.1.1

/-- A client that lets every table in, with an empty store. -/
structure FreshReplica (config : Js.ClientConfig) (replica : Js.World) : Prop where
  tables : config.tables = none
  empty : replica.store.Empty
  receives : replica.refusal .canReceiveChanges = none

theorem FreshReplica.admits {config : Js.ClientConfig} {replica : Js.World}
    (h : FreshReplica config replica) (table : String) : replica.Admits config table := by
  refine ⟨?_, h.receives⟩
  rw [Js.ClientConfig.allows, h.tables]
  rfl

namespace Server

variable {server : Server} {table : String} {event : TableExecution}
  {config : Js.ClientConfig} {replica : Js.World}

theorem rowLog_changes (server : Server) (table id : String) :
    Js.rowLog (server.outbox.map LogEntry.change) table id =
      (server.entries table id).map LogEntry.change := by
  rw [Js.rowLog, List.filter_map]
  rfl

end Server

end ZedSync.Postgres
