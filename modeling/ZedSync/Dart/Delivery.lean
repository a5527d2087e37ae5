import ZedSync.Dart.Client

/-!
A delivery alone: what a call of `applyChange` of the Dart client does to the
world when nothing else runs.
-/

namespace ZedSync.Dart

open Async

theorem reconcile_older {localRow : LocalRow} {incoming : ChangeEvent}
    (h : incoming.version < localRow.version) :
    reconcile (some localRow) incoming = .ignore .stale := by
  simp [reconcile, compareTo_eq_compareHlc, (Js.compareHlc_neg_iff _ _).mpr h]

theorem reconcile_same {localRow : LocalRow} {incoming : ChangeEvent}
    (h : incoming.version = localRow.version) :
    reconcile (some localRow) incoming = .ignore .alreadyApplied := by
  simp [reconcile, compareTo_eq_compareHlc, (Js.compareHlc_zero_iff _ _).mpr h]

theorem reconcile_newer {localRow : LocalRow} {incoming : ChangeEvent}
    (h : localRow.version < incoming.version) :
    reconcile (some localRow) incoming = if localRow.dirty then .conflict else .apply := by
  have hpos := (Js.compareHlc_pos_iff _ _).mpr h
  simp [reconcile, compareTo_eq_compareHlc, not_lt.mpr hpos.le, hpos.ne']

/-- A newer change wins a conflict under both resolutions. -/
theorem resolvesToIncoming_newer (resolution : ConflictResolution) {stored : StoredRow}
    {incoming : ChangeEvent} (h : stored.version < incoming.version) :
    resolvesToIncoming resolution stored incoming = true := by
  have hpos := (Js.compareHlc_pos_iff _ _).mpr h
  simp [resolvesToIncoming, compareTo_eq_compareHlc, hpos]

namespace MemoryStorage

/-- `_adopt`, as one step. -/
def adopt (storage : MemoryStorage) (incoming : ChangeEvent) (now : Nat) : MemoryStorage :=
  storage.putRow incoming.table incoming.id
    { row := incoming.live, version := incoming.version, dirty := false,
      syncedAtMs := some now }

/-- The retirements of a conflict over a copy of the queue. -/
def retireRow (table id : String) (writes : List QueuedWrite) (storage : MemoryStorage) :
    MemoryStorage :=
  writes.foldl
    (fun storage write => if write.sameRow table id then storage.retire write else storage)
    storage

/-- What one delivery does when nothing else runs. -/
def receive (storage : MemoryStorage) (incoming : ChangeEvent) (now : Nat) : MemoryStorage :=
  match storage.getRow incoming.table incoming.id with
  | none => if incoming.op = .upsert then storage.adopt incoming now else storage
  | some stored =>
      if incoming.version < stored.version then storage
      else if incoming.version = stored.version then
        if stored.dirty then storage else storage.adopt incoming now
      else if stored.dirty then
        retireRow incoming.table incoming.id storage.queue (storage.adopt incoming now)
      else storage.adopt incoming now

theorem mem_retireRow (table id : String) (writes : List QueuedWrite)
    (storage : MemoryStorage) (write : QueuedWrite) :
    write ∈ (retireRow table id writes storage).queue ↔
      write ∈ storage.queue ∧
        ∀ other ∈ writes, other.sameRow table id = true → write.key ≠ other.key := by
  induction writes generalizing storage with
  | nil => simp [retireRow]
  | cons first rest ih =>
      rw [retireRow, List.foldl_cons, ← retireRow, ih]
      split
      · rename_i hsame
        simp [retire, hsame, and_assoc]
      · rename_i hother
        simp [hother]

@[simp] theorem retireRow_rows (table id : String) (writes : List QueuedWrite)
    (storage : MemoryStorage) : (retireRow table id writes storage).rows = storage.rows := by
  induction writes generalizing storage with
  | nil => rfl
  | cons first rest ih =>
      rw [retireRow, List.foldl_cons, ← retireRow, ih]
      split <;> rfl

end MemoryStorage

/-- The world once a change is adopted. -/
def World.adopt (world : World) (incoming : ChangeEvent) (now : Nat) : World :=
  { world with
    storage := world.storage.adopt incoming now
    adopted := world.adopted ++
      [(rowKey incoming.table incoming.id, incoming.version)] }

theorem run_adopt (incoming : ChangeEvent) (next : Prog device α) (inputs : List Input)
    (world : World) :
    (adopt incoming >>= fun _ => next).run inputs world =
      next.run inputs.tail.tail (world.adopt incoming (inputs.headD {}).now) :=
  rfl

theorem run_retireEach (table id : String) (writes : List QueuedWrite) (value : α)
    (inputs : List Input) (world : World) :
    (retireEach table id writes >>= fun _ => .ret value).run inputs world =
      (value, { world with
        storage := MemoryStorage.retireRow table id writes world.storage }) := by
  induction writes generalizing inputs world with
  | nil => rfl
  | cons write rest ih =>
      simp only [retireEach, act]
      split
      · rename_i hsame
        simp only [Prog.run, Prog.call_bind, Prog.ret_bind]
        rw [ih]
        simp [MemoryStorage.retireRow, hsame, perform]
      · rename_i hsame
        rw [ih]
        simp [MemoryStorage.retireRow, hsame]

/-- A decision carried out alone. -/
theorem run_applyDecision (config : ClientConfig) (incoming : ChangeEvent)
    (inputs : List Input) (world : World) :
    ∃ now adopted, ((applyDecision config incoming
      (world.storage.getRow incoming.table incoming.id)).run inputs world).2 =
        { world with storage := world.storage.receive incoming now, adopted := adopted } := by
  refine ⟨(inputs.headD {}).now, ?_⟩
  cases hstored : world.storage.getRow incoming.table incoming.id with
  | none =>
      by_cases hop : incoming.op = .upsert
      · simp only [applyDecision, Option.map_none, reconcile, hop, if_true, adoptAs, run_adopt,
          MemoryStorage.receive, hstored]
        exact ⟨_, rfl⟩
      · simp only [applyDecision, Option.map_none, reconcile, hop, if_false,
          MemoryStorage.receive, hstored]
        exact ⟨_, rfl⟩
  | some stored =>
      rcases lt_trichotomy incoming.version stored.version with holder | hsame | hnewer
      · have hdecision : reconcile (some stored.localRow) incoming = .ignore .stale :=
          reconcile_older holder
        simp only [applyDecision, Option.map_some, hdecision, MemoryStorage.receive, hstored,
          holder, if_true]
        exact ⟨_, rfl⟩
      · have hdecision : reconcile (some stored.localRow) incoming = .ignore .alreadyApplied :=
          reconcile_same hsame
        simp only [applyDecision, Option.map_some, hdecision, MemoryStorage.receive, hstored,
          hsame, lt_irrefl, if_false, if_true]
        cases hdirty : stored.dirty with
        | true => exact ⟨_, rfl⟩
        | false =>
            simp only [Bool.not_false, if_true, adoptAs, run_adopt]
            exact ⟨_, rfl⟩
      · have hdecision : reconcile (some stored.localRow) incoming =
            if stored.dirty then .conflict else .apply := reconcile_newer hnewer
        have hwins : resolvesToIncoming config.conflictResolution stored incoming = true :=
          resolvesToIncoming_newer _ hnewer
        cases hdirty : stored.dirty with
        | true =>
            simp only [applyDecision, Option.map_some, hdecision, hdirty, if_true, hwins,
              adoptOverQueued, run_adopt, act, Prog.call_bind, Prog.ret_bind,
              Prog.pure_eq, Prog.run, run_retireEach, MemoryStorage.receive, hstored,
              hnewer.not_gt, hnewer.ne', if_false]
            exact ⟨_, rfl⟩
        | false =>
            simp only [applyDecision, Option.map_some, hdecision, hdirty, Bool.false_eq_true,
              if_false, adoptAs, run_adopt, MemoryStorage.receive, hstored, hnewer.not_gt,
              hnewer.ne']
            exact ⟨_, rfl⟩

/-- A delivery that is let in folds the stamp into the clock and reconciles. -/
theorem run_applyChange (config : ClientConfig) (incoming : ChangeEvent) (inputs : List Input)
    (world : World) (hadmits : world.refusal .canReceiveChanges = none) :
    ∃ now observed adopted, ((applyChange config incoming).run inputs world).2 =
      { world with
        storage := world.storage.receive incoming now
        clock := observe world.clock incoming.version observed
        adopted := adopted } := by
  simp only [applyChange, requireCapability, act, Prog.call_bind, Prog.ret_bind, Prog.run,
    perform, hadmits]
  obtain ⟨now, adopted, hrun⟩ := run_applyDecision config incoming inputs.tail.tail.tail
    { world with clock := observe world.clock incoming.version (inputs.tail.headD {}).now }
  exact ⟨now, (inputs.tail.headD {}).now, adopted, hrun⟩

/-- A change that is not let in changes nothing. -/
theorem run_applyChange_refused (config : ClientConfig) (incoming : ChangeEvent)
    (inputs : List Input) (world : World) (h : world.refusal .canReceiveChanges ≠ none) :
    ((applyChange config incoming).run inputs world).2 = world := by
  simp only [applyChange, requireCapability, act, Prog.call_bind, Prog.ret_bind, Prog.run, perform]
  cases hrefusal : world.refusal .canReceiveChanges with
  | some phase => rfl
  | none => exact absurd hrefusal h

end ZedSync.Dart
