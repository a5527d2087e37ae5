import ZedSync.Js.Sequential

/-!
The two conflict policies. A conflict is reported only for a change newer than the
row, and there both policies adopt: a client under one makes the same programs as a
client under the other.
-/

namespace ZedSync.Js

open Async

/-- The same client under another policy. -/
def ClientConfig.resolving (config : ClientConfig) (resolution : ConflictResolution) :
    ClientConfig :=
  { config with conflictResolution := resolution }

/-- What each call of a sequential run answers, and the world it leaves. -/
def history (config : ClientConfig) : World → List CallEvent → List (Outcome CallResult × World)
  | _, [] => []
  | world, event :: events =>
      let outcome := (event.1.program config).run event.2 world
      outcome :: history config outcome.2 events

theorem newer_of_conflict {localRow : LocalRow} {incoming : ChangeEvent}
    (h : reconcile (some localRow) incoming = .conflict) :
    localRow.version < incoming.version := by
  rcases lt_trichotomy incoming.version localRow.version with hlt | heq | hgt
  · rw [reconcile_older hlt] at h
    cases h
  · rw [reconcile_same heq] at h
    cases h
  · exact hgt

/-- A conflict is always resolved by adopting. -/
theorem applyDecision_conflict (config : ClientConfig) {incoming : ChangeEvent}
    {existing : Option StoredRow}
    (h : reconcile (existing.map StoredRow.localRow) incoming = .conflict) :
    applyDecision config incoming existing = adoptOverQueued incoming := by
  cases existing with
  | none =>
      simp only [Option.map_none, reconcile] at h
      split at h <;> cases h
  | some stored =>
      have hwins := resolveConflict_newer config.conflictResolution (newer_of_conflict h)
      simp only [Option.map_some] at h
      simp only [applyDecision, Option.map_some, h, hwins, if_true]

/-- No other decision reads the policy. -/
theorem applyDecision_resolving (config : ClientConfig) (resolution : ConflictResolution)
    (incoming : ChangeEvent) (existing : Option StoredRow) :
    applyDecision (config.resolving resolution) incoming existing =
      applyDecision config incoming existing := by
  by_cases hconflict : reconcile (existing.map StoredRow.localRow) incoming = .conflict
  · rw [applyDecision_conflict _ hconflict, applyDecision_conflict _ hconflict]
  · unfold applyDecision
    split
    · rfl
    · rename_i hreport
      exact absurd hreport hconflict
    · rfl
    · rfl

theorem applyChange_resolving (config : ClientConfig) (resolution : ConflictResolution)
    (incoming : ChangeEvent) :
    applyChange (config.resolving resolution) incoming = applyChange config incoming := by
  have hdecision := funext (applyDecision_resolving config resolution incoming)
  unfold applyChange
  rw [hdecision]
  rfl

theorem hydrate_resolving (config : ClientConfig) (resolution : ConflictResolution)
    (changes : List ChangeEvent) :
    hydrate (config.resolving resolution) changes = hydrate config changes := by
  induction changes with
  | nil => rfl
  | cons change changes ih => simp only [hydrate, applyChange_resolving, ih]

theorem flushEach_resolving (config : ClientConfig) (resolution : ConflictResolution)
    (policy : ErrorPolicy) (sent : Nat) (entries : List QueueEntry) :
    flushEach (config.resolving resolution) policy sent entries =
      flushEach config policy sent entries := by
  induction entries generalizing sent with
  | nil => rfl
  | cons entry entries ih =>
      have hsend : flushEach.sendEntry (config.resolving resolution) entry =
          flushEach.sendEntry config entry := rfl
      simp only [flushEach, hsend, ih]

/-- The policy makes no difference to the program of a call. -/
theorem program_resolving (config : ClientConfig) (resolution : ConflictResolution)
    (call : Call) : call.program (config.resolving resolution) = call.program config := by
  cases call with
  | applyChange incoming => simp only [Call.program, applyChange_resolving]
  | hydrate changes => simp only [Call.program, hydrate_resolving]
  | write table id row options => rfl
  | flushQueue policy =>
      have hflush : flushQueue (config.resolving resolution) policy = flushQueue config policy := by
        unfold flushQueue
        simp only [flushEach_resolving]
      simp only [Call.program, hflush]
  | newClient newProcess => rfl

theorem history_resolving (config : ClientConfig) (resolution : ConflictResolution)
    (start : World) (events : List CallEvent) :
    history (config.resolving resolution) start events = history config start events := by
  induction events generalizing start with
  | nil => rfl
  | cons event events ih => simp only [history, program_resolving, ih]

/-- Two clients that differ in their conflict policy only, given the same calls and
the same answers: a conflict is never kept local, every call of a sequential run
answers the same and leaves the same world, and so does every interleaving. -/
theorem conflict_policies_agree (config : ClientConfig) :
    let serverWins := config.resolving .serverWins
    let lastWriteWins := config.resolving .lastWriteWins
    (∀ (resolution : ConflictResolution) (stored : StoredRow) (incoming : ChangeEvent),
      reconcile (some stored.localRow) incoming = .conflict →
        resolveConflict resolution stored.localRow incoming = true) ∧
    (∀ (start : World) (events : List CallEvent),
      history serverWins start events = history lastWriteWins start events) ∧
    ∀ (start : World) (calls : List Call) (schedule : List (Pool.Turn session)),
      Pool.run { world := start, threads := calls.map (Call.program serverWins) } schedule =
        Pool.run { world := start, threads := calls.map (Call.program lastWriteWins) }
          schedule := by
  intro serverWins lastWriteWins
  refine ⟨?_, ?_, ?_⟩
  · intro resolution stored incoming hconflict
    exact resolveConflict_newer resolution (newer_of_conflict hconflict)
  · intro start events
    exact (history_resolving config _ start events).trans
      (history_resolving config _ start events).symm
  · intro start calls schedule
    have hprograms : Call.program serverWins = Call.program lastWriteWins := by
      funext call
      exact (program_resolving config _ call).trans (program_resolving config _ call).symm
    rw [hprograms]

end ZedSync.Js
