import ZedSync.Core
import ZedSync.Lib.Run

/-!
The triggers of `postgres/zed_sync.sql` on a table attached while it was empty:
`stamp` before an insert or update, `record` after any change. Readings of
`clock_timestamp()` are microseconds since the epoch and may repeat or go back. An
outbox row keeps what the order of versions needs; its payload, its write key and its
commit time are left out. The advisory lock of `record` makes the order of the
`sequence` column the order of the commits, which is the order of the list here.
-/

namespace ZedSync.Postgres

/-- A `sync_version`. Its wall time is a `bigint`, negative before the epoch. -/
@[ext] structure Version where
  wallMs : Int
  counter : Nat
  actor : String
  deriving DecidableEq, Repr

/-- Wall time, then counter, then actor: the order of the stamps. -/
def Version.key (version : Version) : ℤ ×ₗ ℕ ×ₗ List ℕ :=
  toLex (version.wallMs, toLex (version.counter, utf16Units version.actor))

theorem Version.key_injective : Function.Injective Version.key := by
  intro first second h
  have hparts : (first.wallMs, first.counter, utf16Units first.actor) =
      (second.wallMs, second.counter, utf16Units second.actor) := h
  simp only [Prod.mk.injEq] at hparts
  exact Version.ext hparts.1 hparts.2.1 (utf16Units_injective hparts.2.2)

instance : LinearOrder Version := LinearOrder.lift' Version.key Version.key_injective

theorem Version.lt_iff (first second : Version) :
    first < second ↔ first.wallMs < second.wallMs ∨ first.wallMs = second.wallMs ∧
      (first.counter < second.counter ∨ first.counter = second.counter ∧
        utf16Units first.actor < utf16Units second.actor) := by
  change first.key < second.key ↔ _
  simp [Version.key, Prod.Lex.toLex_lt_toLex]

/-- What the clients decode a version to. -/
def Version.hlc (version : Version) : Hlc :=
  { wallMs := version.wallMs.toNat, counter := version.counter, actor := version.actor }

/-- From the epoch on, the clients order the versions the same way. -/
theorem Version.hlc_lt_iff {first second : Version} (hfirst : 0 ≤ first.wallMs)
    (hsecond : 0 ≤ second.wallMs) : first.hlc < second.hlc ↔ first < second := by
  have hlt : first.wallMs.toNat < second.wallMs.toNat ↔ first.wallMs < second.wallMs := by omega
  have heq : first.wallMs.toNat = second.wallMs.toNat ↔ first.wallMs = second.wallMs := by omega
  rw [Hlc.lt_iff, Version.lt_iff]
  simp only [Version.hlc, hlt, heq]

def actor : String := "pg"

/-- `floor(extract(epoch FROM updated) * 1000)`. -/
def floorMs (micros : Int) : Int := micros / 1000

def nextHlc (prev : Option Version) (updated : Int) : Version :=
  let wall := floorMs updated
  { wallMs := wall
    counter := match prev with
      | some prev => if prev.wallMs = wall then prev.counter + 1 else 0
      | none => 0
    actor := actor }

/-- The columns `zed_sync_attach` adds to a table. -/
structure Row where
  createdAt : Int
  updatedAt : Int
  syncVersion : Version
  deriving DecidableEq, Repr

/-- `stamp` on an insert: `COALESCE` and `GREATEST` each read the clock. -/
def stampInsert (createdAt : Option Int) (coalesceClock greatestClock : Int) : Row :=
  let createdAt := createdAt.getD coalesceClock
  let updatedAt := max greatestClock createdAt
  { createdAt := createdAt, updatedAt := updatedAt, syncVersion := nextHlc none updatedAt }

/-- `stamp` on an update. -/
def stampUpdate (old : Row) (clock : Int) : Row :=
  let updatedAt := max clock (old.updatedAt + 1)
  { createdAt := old.createdAt, updatedAt := updatedAt
    syncVersion := nextHlc (some old.syncVersion) updatedAt }

/-- One logical tick on. -/
def tick (version : Version) : Version := { version with counter := version.counter + 1 }

/-- The version `record` gives a deleted row: its own, one tick on. -/
def tombstoneVersion (old : Row) : Version := tick old.syncVersion

structure OutboxRow where
  tableName : String
  operation : Op
  rowId : String
  version : Version
  deriving DecidableEq, Repr

structure Database where
  rows : String → String → Option Row := fun _ _ => none
  outbox : List OutboxRow := []

inductive Statement where
  | insert (createdAt : Option Int) (coalesceClock greatestClock : Int)
  | update (clock : Int)
  | delete
  deriving Repr

/-- A committed statement on one row. -/
structure Mutation where
  table : String
  id : String
  statement : Statement
  deriving Repr

def Database.setRow (db : Database) (table id : String) (row : Option Row) : Database :=
  { db with
    rows := fun table' id' => if table' = table ∧ id' = id then row else db.rows table' id' }

def Database.record (db : Database) (operation : Op) (table id : String) (version : Version) :
    Database :=
  { db with
    outbox := db.outbox ++
      [{ tableName := table, operation := operation, rowId := id, version := version }] }

/-- The row the statement leaves, and what it records; an insert of an existing id
fails, and an update or delete of a missing one finds no row. -/
def Database.apply (db : Database) (mutation : Mutation) : Database :=
  match mutation.statement, db.rows mutation.table mutation.id with
  | .insert createdAt coalesceClock greatestClock, none =>
      let row := stampInsert createdAt coalesceClock greatestClock
      (db.setRow mutation.table mutation.id (some row)).record .upsert mutation.table mutation.id
        row.syncVersion
  | .update clock, some old =>
      let row := stampUpdate old clock
      (db.setRow mutation.table mutation.id (some row)).record .upsert mutation.table mutation.id
        row.syncVersion
  | .delete, some old =>
      (db.setRow mutation.table mutation.id none).record .delete mutation.table mutation.id
        (tombstoneVersion old)
  | _, _ => db

/-- The versions the outbox has for a row, in sequence order. -/
def Database.versions (db : Database) (table id : String) : List Version :=
  (db.outbox.filter fun entry => entry.tableName == table && entry.rowId == id).map (·.version)

def StrictlyIncreasing (versions : List Version) : Prop := versions.Pairwise (· < ·)

instance (versions : List Version) : Decidable (StrictlyIncreasing versions) :=
  inferInstanceAs (Decidable (versions.Pairwise (· < ·)))

theorem strictlyIncreasing_concat (versions : List Version) (next : Version) :
    StrictlyIncreasing (versions ++ [next]) ↔ StrictlyIncreasing versions ∧
      ∀ last, versions.getLast? = some last → last < next := by
  rw [StrictlyIncreasing, List.pairwise_append]
  constructor
  · rintro ⟨hversions, -, hnext⟩
    refine ⟨hversions, fun last hlast => ?_⟩
    exact hnext last (List.mem_of_getLast? hlast) next List.mem_cons_self
  · rintro ⟨hversions, hlast⟩
    refine ⟨hversions, List.pairwise_singleton _ _, fun version hversion other hother => ?_⟩
    obtain rfl := List.mem_singleton.mp hother
    cases hend : versions.getLast? with
    | none =>
        rw [List.getLast?_eq_none_iff.mp hend] at hversion
        cases hversion
    | some last =>
        obtain ⟨earlier, rfl⟩ := List.getLast?_eq_some_iff.mp hend
        rcases List.mem_append.mp hversion with hearlier | hsame
        · have hbefore := (List.pairwise_append.mp hversions).2.2 version hearlier last
            List.mem_cons_self
          exact hbefore.trans (hlast last hend)
        · rw [List.mem_singleton.mp hsame]
          exact hlast last hend

/-- An update's version is past the row's, whatever the clock reads. -/
theorem stampUpdate_lt (old : Row) (clock : Int)
    (hwall : old.syncVersion.wallMs = floorMs old.updatedAt) :
    old.syncVersion < (stampUpdate old clock).syncVersion := by
  have hlater : old.updatedAt + 1 ≤ max clock (old.updatedAt + 1) := le_max_right _ _
  have hle : old.syncVersion.wallMs ≤ floorMs (max clock (old.updatedAt + 1)) := by
    rw [hwall]
    simp only [floorMs]
    omega
  rw [Version.lt_iff]
  by_cases hsame : old.syncVersion.wallMs = floorMs (max clock (old.updatedAt + 1))
  · exact Or.inr ⟨hsame, Or.inl (by simp [stampUpdate, nextHlc, hsame])⟩
  · exact Or.inl (lt_of_le_of_ne hle hsame)

theorem tombstoneVersion_lt (old : Row) : old.syncVersion < tombstoneVersion old := by
  rw [Version.lt_iff]
  exact Or.inr ⟨rfl, Or.inl (Nat.lt_succ_self _)⟩

/-- A version of counter zero is past a tombstone only in a later millisecond. -/
theorem lt_fresh_iff {tombstone : Version} (hcounter : 0 < tombstone.counter)
    (createdAt : Option Int) (coalesceClock greatestClock : Int) :
    tombstone < (stampInsert createdAt coalesceClock greatestClock).syncVersion ↔
      tombstone.wallMs < floorMs (max greatestClock (createdAt.getD coalesceClock)) := by
  rw [Version.lt_iff]
  simp only [stampInsert, nextHlc]
  constructor
  · rintro (hwall | ⟨-, hcount | ⟨hcount, -⟩⟩)
    · exact hwall
    · exact absurd hcount (Nat.not_lt_zero _)
    · omega
  · exact Or.inl

section OneRow

variable (table id : String)

/-- A live row's version is the last the outbox has for it, at the millisecond of its
`updated_at`; after a deletion the last one is a tombstone's. -/
def Recorded (db : Database) : Prop :=
  match db.rows table id with
  | some row => (db.versions table id).getLast? = some row.syncVersion ∧
      row.syncVersion.wallMs = floorMs row.updatedAt
  | none => ∀ last, (db.versions table id).getLast? = some last → 0 < last.counter

/-- A re-insert of the row is stamped in a later millisecond than its tombstone. -/
def RebornLater (db : Database) (mutation : Mutation) : Prop :=
  mutation.table = table → mutation.id = id → db.rows table id = none →
    match mutation.statement with
    | .insert createdAt coalesceClock greatestClock =>
        ∀ tombstone, (db.versions table id).getLast? = some tombstone →
          tombstone.wallMs < floorMs (max greatestClock (createdAt.getD coalesceClock))
    | _ => True

variable {table id}

theorem versions_record_self (db : Database) (operation : Op) (version : Version) :
    (db.record operation table id version).versions table id =
      db.versions table id ++ [version] := by
  simp [Database.versions, Database.record, List.filter_append]

theorem versions_record_other (db : Database) (operation : Op) {table' id' : String}
    (version : Version) (hother : ¬ (table' = table ∧ id' = id)) :
    (db.record operation table' id' version).versions table id = db.versions table id := by
  simp [Database.versions, Database.record, List.filter_append, hother]

/-- What a statement does to a row. -/
inductive RowStep (table id : String) (db after : Database) (mutation : Mutation) : Prop
  | kept (hrow : after.rows table id = db.rows table id)
      (hversions : after.versions table id = db.versions table id)
      (hlater : RebornLater table id db mutation)
  | inserted (createdAt : Option Int) (coalesceClock greatestClock : Int)
      (hmutation : mutation =
        { table := table, id := id
          statement := .insert createdAt coalesceClock greatestClock })
      (hold : db.rows table id = none)
      (hrow : after.rows table id = some (stampInsert createdAt coalesceClock greatestClock))
      (hversions : after.versions table id = db.versions table id ++
        [(stampInsert createdAt coalesceClock greatestClock).syncVersion])
  | updated (old : Row) (clock : Int) (hold : db.rows table id = some old)
      (hlater : RebornLater table id db mutation)
      (hrow : after.rows table id = some (stampUpdate old clock))
      (hversions : after.versions table id =
        db.versions table id ++ [(stampUpdate old clock).syncVersion])
  | deleted (old : Row) (hold : db.rows table id = some old)
      (hlater : RebornLater table id db mutation)
      (hrow : after.rows table id = none)
      (hversions : after.versions table id = db.versions table id ++ [tombstoneVersion old])

theorem apply_rowStep (db : Database) (mutation : Mutation) :
    RowStep table id db (db.apply mutation) mutation := by
  obtain ⟨table', id', statement⟩ := mutation
  by_cases hother : ¬ (table' = table ∧ id' = id)
  · have hlater : RebornLater table id db ⟨table', id', statement⟩ :=
      fun htable hid => absurd ⟨htable, hid⟩ hother
    have hread : ¬ (table = table' ∧ id = id') := fun h => hother ⟨h.1.symm, h.2.symm⟩
    have hkept : ∀ row operation version,
        RowStep table id db
          ((db.setRow table' id' row).record operation table' id' version)
          ⟨table', id', statement⟩ := by
      intro row operation version
      refine .kept (if_neg hread) ?_ hlater
      rw [versions_record_other _ operation version hother]
      rfl
    unfold Database.apply
    split
    · exact hkept _ _ _
    · exact hkept _ _ _
    · exact hkept _ _ _
    · exact .kept rfl rfl hlater
  · obtain ⟨rfl, rfl⟩ := not_not.mp hother
    have hset : ∀ row operation version,
        ((db.setRow table' id' row).record operation table' id' version).rows table' id' = row :=
      fun _ _ _ => if_pos ⟨rfl, rfl⟩
    have hversions : ∀ row operation version,
        ((db.setRow table' id' row).record operation table' id' version).versions table' id' =
          db.versions table' id' ++ [version] :=
      fun row operation version => versions_record_self (db.setRow table' id' row) operation version
    cases hrow : db.rows table' id' with
    | none =>
        cases statement with
        | insert createdAt coalesceClock greatestClock =>
            simp only [Database.apply, hrow]
            exact .inserted createdAt coalesceClock greatestClock rfl hrow (hset _ _ _)
              (hversions _ _ _)
        | update clock =>
            simp only [Database.apply, hrow]
            exact .kept rfl rfl fun _ _ _ => trivial
        | delete =>
            simp only [Database.apply, hrow]
            exact .kept rfl rfl fun _ _ _ => trivial
    | some old =>
        have hlater : ∀ statement, RebornLater table' id' db ⟨table', id', statement⟩ :=
          fun _ _ _ hnone => nomatch hrow.symm.trans hnone
        cases statement with
        | insert createdAt coalesceClock greatestClock =>
            simp only [Database.apply, hrow]
            exact .kept rfl rfl (hlater _)
        | update clock =>
            simp only [Database.apply, hrow]
            exact .updated old clock hrow (hlater _) (hset _ _ _) (hversions _ _ _)
        | delete =>
            simp only [Database.apply, hrow]
            exact .deleted old hrow (hlater _) (hset _ _ _) (hversions _ _ _)

theorem RowStep.recorded {db after : Database} {mutation : Mutation}
    (h : RowStep table id db after mutation) (hrecorded : Recorded table id db) :
    Recorded table id after := by
  cases h with
  | kept hrow hversions _ =>
      unfold Recorded
      rw [hrow, hversions]
      exact hrecorded
  | inserted createdAt coalesceClock greatestClock _ _ hrow hversions =>
      unfold Recorded
      rw [hrow, hversions]
      exact ⟨List.getLast?_concat, rfl⟩
  | updated old clock _ _ hrow hversions =>
      unfold Recorded
      rw [hrow, hversions]
      exact ⟨List.getLast?_concat, rfl⟩
  | deleted old _ _ hrow hversions =>
      unfold Recorded
      rw [hrow, hversions]
      intro last hlast
      rw [List.getLast?_concat] at hlast
      obtain rfl := Option.some.inj hlast
      exact Nat.succ_pos _

/-- The outbox only grows. -/
theorem RowStep.keeps_order {db after : Database} {mutation : Mutation}
    (h : RowStep table id db after mutation)
    (hafter : StrictlyIncreasing (after.versions table id)) :
    StrictlyIncreasing (db.versions table id) := by
  cases h with
  | kept _ hversions _ => rwa [hversions] at hafter
  | inserted _ _ _ _ _ _ hversions =>
      rw [hversions] at hafter
      exact ((strictlyIncreasing_concat _ _).mp hafter).1
  | updated _ _ _ _ _ hversions =>
      rw [hversions] at hafter
      exact ((strictlyIncreasing_concat _ _).mp hafter).1
  | deleted _ _ _ _ hversions =>
      rw [hversions] at hafter
      exact ((strictlyIncreasing_concat _ _).mp hafter).1

theorem Recorded.last {db : Database} (h : Recorded table id db) {old : Row}
    (hold : db.rows table id = some old) :
    (db.versions table id).getLast? = some old.syncVersion ∧
      old.syncVersion.wallMs = floorMs old.updatedAt := by
  simpa only [Recorded, hold] using h

/-- A version past the one of the row is past every version recorded. -/
theorem Recorded.increasing_concat {db : Database} (h : Recorded table id db) {old : Row}
    (hold : db.rows table id = some old) (hincreasing : StrictlyIncreasing (db.versions table id))
    {next : Version} (hlt : old.syncVersion < next) :
    StrictlyIncreasing (db.versions table id ++ [next]) := by
  refine (strictlyIncreasing_concat _ _).mpr ⟨hincreasing, fun last hend => ?_⟩
  obtain rfl := Option.some.inj ((h.last hold).1.symm.trans hend)
  exact hlt

/-- The next version is past the last one, except of a row reborn too early. -/
theorem RowStep.increasing_iff {db after : Database} {mutation : Mutation}
    (h : RowStep table id db after mutation) (hrecorded : Recorded table id db)
    (hincreasing : StrictlyIncreasing (db.versions table id)) :
    StrictlyIncreasing (after.versions table id) ↔ RebornLater table id db mutation := by
  cases h with
  | kept _ hversions hlater =>
      rw [hversions]
      exact ⟨fun _ => hlater, fun _ => hincreasing⟩
  | inserted createdAt coalesceClock greatestClock hmutation hold _ hversions =>
      subst hmutation
      have hlast : ∀ last, (db.versions table id).getLast? = some last → 0 < last.counter := by
        simpa only [Recorded, hold] using hrecorded
      rw [hversions, strictlyIncreasing_concat]
      constructor
      · rintro ⟨-, hnext⟩ - - - tombstone htombstone
        exact (lt_fresh_iff (hlast _ htombstone) _ _ _).mp (hnext tombstone htombstone)
      · intro hlater
        refine ⟨hincreasing, fun tombstone htombstone => ?_⟩
        exact (lt_fresh_iff (hlast _ htombstone) _ _ _).mpr
          (hlater rfl rfl hold tombstone htombstone)
  | updated old clock hold hlater _ hversions =>
      have hpast : old.syncVersion < (stampUpdate old clock).syncVersion :=
        stampUpdate_lt old clock (hrecorded.last hold).2
      rw [hversions]
      exact ⟨fun _ => hlater, fun _ => hrecorded.increasing_concat hold hincreasing hpast⟩
  | deleted old hold hlater _ hversions =>
      have hpast : old.syncVersion < tombstoneVersion old := tombstoneVersion_lt old
      rw [hversions]
      exact ⟨fun _ => hlater, fun _ => hrecorded.increasing_concat hold hincreasing hpast⟩

end OneRow

/-- In every history of a table attached while empty, the versions the outbox has for a
row strictly increase exactly when every re-insert of its id is stamped in a later
millisecond than the tombstone before it. -/
theorem outbox_increases_iff (history : List Mutation) (table id : String) :
    StrictlyIncreasing ((Run.final Database.apply {} history).versions table id) ↔
      Run.Along Database.apply (RebornLater table id) {} history :=
  Run.final_iff_along (J := Recorded table id)
    (fun db mutation hrecorded => (apply_rowStep db mutation).recorded hrecorded)
    (fun db mutation hafter => (apply_rowStep db mutation).keeps_order hafter)
    (fun db mutation hrecorded hincreasing =>
      (apply_rowStep db mutation).increasing_iff hrecorded hincreasing)
    history (fun _ hlast => nomatch hlast) List.Pairwise.nil

/-- A row created, removed and created again within one millisecond. -/
def rebirth : List Mutation :=
  [{ table := "todos", id := "a", statement := .insert (some 5000100) 5000200 5000300 },
    { table := "todos", id := "a", statement := .delete },
    { table := "todos", id := "a", statement := .insert (some 5000700) 5000800 5000900 }]

/-- The row that is live again is older than its tombstone. -/
theorem rebirth_precedes_tombstone :
    let versions := (Run.final Database.apply {} rebirth).versions "todos" "a"
    versions = [⟨5000, 0, actor⟩, ⟨5000, 1, actor⟩, ⟨5000, 0, actor⟩] ∧
      ¬ StrictlyIncreasing versions := by
  have hversions : (Run.final Database.apply {} rebirth).versions "todos" "a" =
      [⟨5000, 0, actor⟩, ⟨5000, 1, actor⟩, ⟨5000, 0, actor⟩] := by decide
  refine ⟨hversions, ?_⟩
  rw [hversions]
  intro hincreasing
  have hlast := (strictlyIncreasing_concat [⟨5000, 0, actor⟩, ⟨5000, 1, actor⟩] _).mp hincreasing
  have hlt : (⟨5000, 1, actor⟩ : Version) < ⟨5000, 0, actor⟩ := hlast.2 _ rfl
  simp [Version.lt_iff] at hlt

end ZedSync.Postgres
