import Mathlib.Algebra.Group.Nat.Defs
import ZedSync.Postgres.Record

/-!
The `stamp` trigger of `postgres/zed_sync.sql` on the columns as a statement brings
them and a row holds them: any of the three may be null, and a client may supply what it
likes. Counters are `int`s, so `next_hlc` raises where one would pass the largest. On a row
that the trigger has stamped from its insert on, it never does: the microsecond by which
`updated_at` moves on bounds the counter of its millisecond.
-/

namespace ZedSync.Postgres

/-- The values a statement supplies for the columns of the contract. -/
structure Supplied where
  createdAt : Option Int := none
  updatedAt : Option Int := none
  syncVersion : Option Json := none
  deriving Repr

/-- The same columns of a stored row. The version of a row that was never stamped is
null. -/
structure SyncColumns where
  createdAt : Option Int := none
  updatedAt : Option Int := none
  syncVersion : Option Version := none
  deriving DecidableEq, Repr

/-- `TG_OP`, with `OLD` and the readings of `clock_timestamp()`. -/
inductive StampOp where
  | insert (coalesceClock greatestClock : Int)
  | update (old : SyncColumns) (clock : Int)
  deriving Repr

/-- `next_hlc`, or none where the counter leaves the range of `int` and it raises. -/
def nextHlcInt (prev : Option Version) (updated : Int) : Option Version :=
  let next := nextHlc prev updated
  if next.counter ≤ maxInt then some next else none

/-- `GREATEST(clock_timestamp(), OLD.updated_at + interval '1 microsecond')`, which passes
over a null. -/
def SyncColumns.nextUpdate (old : SyncColumns) (clock : Int) : Int :=
  (old.updatedAt.map fun before => max clock (before + 1)).getD clock

/-- `stamp`: the columns the row is stored with, or none where it raises. -/
def stamp (op : StampOp) (new : Supplied) : Option SyncColumns :=
  match op with
  | .insert coalesceClock greatestClock =>
      let createdAt := new.createdAt.getD coalesceClock
      let updatedAt := max greatestClock createdAt
      (nextHlcInt none updatedAt).map fun version =>
        { createdAt := some createdAt, updatedAt := some updatedAt, syncVersion := some version }
  | .update old clock =>
      let updatedAt := old.nextUpdate clock
      (nextHlcInt old.syncVersion updatedAt).map fun version =>
        { createdAt := old.createdAt, updatedAt := some updatedAt, syncVersion := some version }

/-- The columns of a stamped row. -/
def Row.columns (row : Row) : SyncColumns :=
  { createdAt := some row.createdAt, updatedAt := some row.updatedAt
    syncVersion := some row.syncVersion }

theorem stamp_insert (new : Supplied) (coalesceClock greatestClock : Int) :
    stamp (.insert coalesceClock greatestClock) new =
      some (stampInsert new.createdAt coalesceClock greatestClock).columns := rfl

theorem stamp_update {old : Row} {clock : Int} (new : Supplied)
    (hcounter : (stampUpdate old clock).syncVersion.counter ≤ maxInt) :
    stamp (.update old.columns clock) new = some (stampUpdate old clock).columns := by
  have hnext : nextHlcInt (some old.syncVersion) (max clock (old.updatedAt + 1)) =
      some (stampUpdate old clock).syncVersion := if_pos hcounter
  simp [stamp, SyncColumns.nextUpdate, Row.columns, hnext, stampUpdate]

/-- Where `next_hlc` does not raise, it is the version without a bound. -/
theorem nextHlcInt_eq_some_iff {prev : Option Version} {updated : Int} {version : Version} :
    nextHlcInt prev updated = some version ↔
      nextHlc prev updated = version ∧ version.counter ≤ maxInt := by
  simp only [nextHlcInt, Option.ite_none_right_eq_some, Option.some.injEq]
  constructor
  · rintro ⟨hle, rfl⟩
    exact ⟨rfl, hle⟩
  · rintro ⟨rfl, hle⟩
    exact ⟨hle, rfl⟩

/-- `next_hlc` raises only where it counts on from the last `int`. -/
theorem nextHlcInt_isSome_iff (prev : Option Version) (updated : Int) :
    (nextHlcInt prev updated).isSome = true ↔
      ∀ version, prev = some version → version.wallMs = floorMs updated →
        version.counter < maxInt := by
  simp only [Option.isSome_iff_exists, nextHlcInt_eq_some_iff, exists_eq_left']
  cases prev with
  | none => simp [nextHlc]
  | some version =>
      simp only [nextHlc, Option.some.injEq, forall_eq']
      split_ifs with hsame
      · simp only [hsame, forall_const]
        exact Nat.succ_le_iff
      · simp [hsame]

/-- The counter of a stamped row is no further than the microseconds into the
millisecond of its `updated_at`. -/
structure Row.Stamped (row : Row) : Prop where
  wall : row.syncVersion.wallMs = floorMs row.updatedAt
  counter : (row.syncVersion.counter : Int) ≤ row.updatedAt % 1000

theorem stampInsert_stamped (createdAt : Option Int) (coalesceClock greatestClock : Int) :
    (stampInsert createdAt coalesceClock greatestClock).Stamped where
  wall := rfl
  counter := Int.emod_nonneg _ (by decide)

/-- One more microsecond in the same millisecond leaves room for one more count. -/
theorem nextHlc_counter {prev : Version} {before updated : Int} (hlater : before < updated)
    (hwall : prev.wallMs = floorMs before) (hcounter : (prev.counter : Int) ≤ before % 1000) :
    ((nextHlc (some prev) updated).counter : Int) ≤ updated % 1000 := by
  simp only [nextHlc]
  split
  · rename_i hsame
    rw [hwall] at hsame
    simp only [floorMs] at hsame
    push_cast
    omega
  · exact Int.emod_nonneg _ (by decide)

theorem Row.Stamped.update {row : Row} (h : row.Stamped) (clock : Int) :
    (stampUpdate row clock).Stamped where
  wall := rfl
  counter := nextHlc_counter (Int.lt_of_add_one_le (le_max_right _ _)) h.wall h.counter

theorem Row.Stamped.counter_le {row : Row} (h : row.Stamped) : row.syncVersion.counter ≤ 999 := by
  have hcounter := h.counter
  omega

/-- An update with what its statement supplies. -/
structure RowUpdate where
  new : Supplied := {}
  clock : Int
  deriving Repr

/-- What a row is stored as after an update; none once the trigger has raised. -/
def storeUpdate (row : Option SyncColumns) (update : RowUpdate) : Option SyncColumns :=
  row.bind fun old => stamp (.update old update.clock) update.new

/-- The rows a stamped row becomes. -/
def updatedRows (row : Row) (updates : List RowUpdate) : List Row :=
  row :: Run.states (fun row (update : RowUpdate) => stampUpdate row update.clock) row updates

/-- The trigger stores just those rows, and raises at none. -/
theorem storeUpdate_states {row : Row} (h : row.Stamped) (updates : List RowUpdate) :
    some row.columns :: Run.states storeUpdate (some row.columns) updates =
      (updatedRows row updates).map fun later => some later.columns := by
  induction updates generalizing row with
  | nil => rfl
  | cons update updates ih =>
      have hnext := h.update update.clock
      have hbound : (stampUpdate row update.clock).syncVersion.counter ≤ maxInt :=
        hnext.counter_le.trans (by decide)
      have hstep : storeUpdate (some row.columns) update =
          some (stampUpdate row update.clock).columns := stamp_update update.new hbound
      have hrest := ih hnext
      simp only [updatedRows, Run.states, List.map_cons, hstep, List.cons.injEq,
        true_and] at hrest ⊢
      exact hrest

theorem updatedRows_stamped {row : Row} (h : row.Stamped) (updates : List RowUpdate) :
    ∀ later ∈ updatedRows row updates, later.Stamped ∧ later.createdAt = row.createdAt := by
  induction updates generalizing row with
  | nil =>
      intro later hlater
      obtain rfl := List.mem_singleton.mp hlater
      exact ⟨h, rfl⟩
  | cons update updates ih =>
      intro later hlater
      rcases List.mem_cons.mp hlater with rfl | hmem
      · exact ⟨h, rfl⟩
      · exact ih (h.update update.clock) later hmem

/-- What is past what, in the rows a stamped row becomes. -/
def Outstamps (earlier later : Row) : Prop :=
  earlier.updatedAt < later.updatedAt ∧ earlier.syncVersion < later.syncVersion

theorem updatedRows_rise {row : Row} (h : row.Stamped) (updates : List RowUpdate) :
    (updatedRows row updates).Pairwise Outstamps := by
  apply Run.pairwise_states (J := Row.Stamped)
    (fun hab hbc => ⟨hab.1.trans hbc.1, hab.2.trans hbc.2⟩)
    (fun _ update hstamped => hstamped.update update.clock) _ updates h
  intro before update hstamped
  refine ⟨?_, stampUpdate_lt before update.clock hstamped.wall⟩
  simp only [stampUpdate]
  omega

/-- An insert and any updates of the row, whatever they supply and the clock reads: the
trigger never raises, `updated_at` and the version go up, `created_at` stays, a version
has the millisecond of its `updated_at`, and the counters are small, that of a tombstone
included, which then is recorded. -/
theorem stamps_stay_in_range (new : Supplied) (coalesceClock greatestClock : Int)
    (updates : List RowUpdate) :
    let inserted := stamp (.insert coalesceClock greatestClock) new
    ∃ rows : List Row,
      inserted :: Run.states storeUpdate inserted updates =
          rows.map (fun row => some row.columns) ∧
        rows.Pairwise (fun earlier later => earlier.updatedAt < later.updatedAt) ∧
        rows.Pairwise (fun earlier later => earlier.syncVersion < later.syncVersion) ∧
        ∀ row ∈ rows,
          row.createdAt = new.createdAt.getD coalesceClock ∧
          row.syncVersion.wallMs = floorMs row.updatedAt ∧
          row.syncVersion.counter ≤ 999 ∧
          (tombstoneVersion row).counter ≤ 1000 ∧
          (tombstoneVersion row).counter ≤ maxInt ∧
          (tombstoneVersion row).counter < 2 ^ 16 := by
  intro inserted
  have hinserted := stampInsert_stamped new.createdAt coalesceClock greatestClock
  have hrise := updatedRows_rise hinserted updates
  refine ⟨_, storeUpdate_states hinserted updates, hrise.imp fun h => h.1,
    hrise.imp fun h => h.2, ?_⟩
  intro row hrow
  obtain ⟨hstamped, hcreated⟩ := updatedRows_stamped hinserted updates row hrow
  have hcounter := hstamped.counter_le
  have htombstone : (tombstoneVersion row).counter = row.syncVersion.counter + 1 := rfl
  refine ⟨hcreated, hstamped.wall, hcounter, ?_, ?_, ?_⟩
  · omega
  · simp only [maxInt]
    omega
  · omega

/-- What decides reconciliation: the stored `updated_at` and version. -/
def SyncColumns.decides (columns : SyncColumns) : Option Int × Option Version :=
  (columns.updatedAt, columns.syncVersion)

/-- An update; or an insert whose `created_at`, the first reading where none is supplied,
is the same for both, or past the second reading for neither. -/
def SameBirth (op : StampOp) (first second : Supplied) : Prop :=
  match op with
  | .update _ _ => True
  | .insert coalesceClock greatestClock =>
      let created := first.createdAt.getD coalesceClock
      let created' := second.createdAt.getD coalesceClock
      created = created' ∨ created ≤ greatestClock ∧ created' ≤ greatestClock

instance (op : StampOp) (first second : Supplied) : Decidable (SameBirth op first second) :=
  match op with
  | .update _ _ => inferInstanceAs (Decidable True)
  | .insert _ _ => inferInstanceAs (Decidable (_ ∨ _))

/-- Two statements that differ in what they supply are stamped alike exactly then. -/
theorem stamp_ignores_supplied_iff (op : StampOp) (first second : Supplied) :
    (stamp op first).map SyncColumns.decides = (stamp op second).map SyncColumns.decides ↔
      SameBirth op first second := by
  cases op with
  | update old clock => exact ⟨fun _ => trivial, fun _ => rfl⟩
  | insert coalesceClock greatestClock =>
      have hupdated : (stamp (.insert coalesceClock greatestClock) first).map SyncColumns.decides =
          (stamp (.insert coalesceClock greatestClock) second).map SyncColumns.decides ↔
          max greatestClock (first.createdAt.getD coalesceClock) =
            max greatestClock (second.createdAt.getD coalesceClock) := by
        simp only [stamp_insert, Option.map_some, Option.some.injEq, SyncColumns.decides,
          Row.columns, Prod.mk.injEq, stampInsert]
        exact ⟨fun h => h.1, fun h => ⟨h, by rw [h]⟩⟩
      rw [hupdated]
      simp only [SameBirth]
      omega

/-- A client that supplies a `created_at` of the year 2100 chooses the version. -/
theorem supplied_birth_is_stamped :
    let op : StampOp := .insert 1000000 1000000
    let future : Supplied := { createdAt := some 4102444800000000 }
    (stamp op {}).bind (·.syncVersion) = some { wallMs := 1000, counter := 0, actor := "pg" } ∧
      (stamp op future).bind (·.syncVersion) =
        some { wallMs := 4102444800000, counter := 0, actor := "pg" } ∧
      (stamp op future).map SyncColumns.decides ≠ (stamp op {}).map SyncColumns.decides := by
  intro op future
  exact ⟨by decide, by decide, by decide⟩

end ZedSync.Postgres
