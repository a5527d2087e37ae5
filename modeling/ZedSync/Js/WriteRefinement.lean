import ZedSync.Js.DirtyRows
import ZedSync.WriteModel

/-!
The browser client as a refinement of `formal/write_lifecycle.qnt`. Seen at one row and
its slot, what a sequential run does to the store is a run of the model: an edit is a
write, a settlement a send and its answer, a change that outruns a dirty row a conflict.
An answer the client refuses as superseded leaves the entry for the next flush, as a
failed send does.
-/

namespace ZedSync.Js

open Async WriteModel

/-- A settlement that retires no slot leaves the store. -/
theorem Store.settleAck_refused {store : Store} {options : SettleOptions}
    (h : (store.settleAck options).1.1 = false) : (store.settleAck options).2 = store := by
  unfold Store.settleAck at h ⊢
  cases hindex : store.queue.findIdx? (·.seq = options.seq) with
  | none => rfl
  | some index =>
      rw [hindex] at h
      cases hrow : store.getRow options.table options.id with
      | none => rfl
      | some current =>
          simp only [hrow] at h ⊢
          generalize settleQueuedAck _ _ _ _ _ = settlement at h ⊢
          cases hretires : settlement.retireCurrentSlot with
          | false => rfl
          | true => cases hadopt : settlement.adopt <;> simp [hretires, hadopt] at h

/-- One that retires a slot shortens the queue. -/
theorem Store.settleAck_shortens {store : Store} {options : SettleOptions}
    (h : (store.settleAck options).1.1 = true) : (store.settleAck options).2 ≠ store := by
  intro hsame
  have hlength : (store.settleAck options).2.queue.length = store.queue.length := by rw [hsame]
  unfold Store.settleAck at h hlength
  cases hindex : store.queue.findIdx? (·.seq = options.seq) with
  | none => simp [hindex] at h
  | some index =>
      obtain ⟨hlt, -⟩ := List.findIdx?_eq_some_iff_getElem.mp hindex
      have herase := List.length_eraseIdx_of_lt hlt
      rw [hindex] at h hlength
      cases hrow : store.getRow options.table options.id with
      | none => simp [hrow] at h
      | some current =>
          simp only [hrow] at h hlength
          generalize settleQueuedAck _ _ _ _ _ = settlement at h hlength
          cases hretires : settlement.retireCurrentSlot with
          | false => simp [hretires] at h
          | true =>
              cases hadopt : settlement.adopt <;>
                simp [hretires, hadopt, Store.setRow] at hlength <;> omega

section Trace

variable (table id : String)

/-- The writes of the row among the effects. -/
def Effect.edits : Effect → List QueuedWrite
  | .edited write _ => if write.table = table ∧ write.id = id then [write] else []
  | .received _ _ | .settled _ _ _ | .served _ _ _ => []

/-- What an effect is in the model of the row. -/
def Effect.actions (store : Store) : Effect → List WriteModel.Action
  | .edited write _ => if write.table = table ∧ write.id = id then [.localWrite] else []
  | .received change _ =>
      if (change.table = table ∧ change.id = id) ∧
          reconcile ((store.getRow table id).map StoredRow.localRow) change = .conflict then
        [.serverWinsConflict]
      else []
  | .settled entry committedVersion now =>
      if entry.table = table ∧ entry.id = id then
        [.send,
          if (store.settleAck (.ofEntry entry committedVersion now)).1.1 then .acknowledge
          else .sendFailure]
      else []
  | .served _ _ _ => []

/-- The run of the model that a run of effects is. -/
def modelRun : Store → List Effect → List WriteModel.Action
  | _, [] => []
  | store, effect :: effects =>
      effect.actions table id store ++ modelRun (effect.apply store) effects

end Trace

/-- The state of the model shows the row: as many writes as were made, the row dirty, and
in its slot the last of these writes. -/
structure Modelled (table id : String) (edits : List QueuedWrite) (store : Store)
    (state : WriteModel.State) : Prop where
  idle : state.connected = true ∧ state.inFlightKey = none
  generation : state.localGeneration = edits.length
  dirty : state.dirty = true ↔ store.DirtyAt table id
  queued : state.queuedKey ≠ none ↔ store.QueuedFor table id
  slot : ∀ entry ∈ store.queue, entry.sameRow table id = true →
    edits.getLast? = some entry.toQueuedWrite

/-- Beside the queue, the rest of what a state shows follows from the safety of the model
and from the rows and slots of the store. -/
theorem modelled_of_queued {table id : String} (htable : Separable table) {edits : List QueuedWrite}
    {store : Store} {state : WriteModel.State} {bound : Nat} (hinv : Inv bound state)
    (hmatched : store.Matched) (hidle : state.connected = true ∧ state.inFlightKey = none)
    (hgeneration : state.localGeneration = edits.length)
    (hqueued : state.queuedKey ≠ none ↔ store.QueuedFor table id)
    (hslot : ∀ entry ∈ store.queue, entry.sameRow table id = true →
      edits.getLast? = some entry.toQueuedWrite) : Modelled table id edits store state := by
  have hclean : state.queuedKey = none ↔ state.dirty = false := hinv.queueMatchesDirty
  refine ⟨hidle, hgeneration, ?_, hqueued, hslot⟩
  rw [hmatched.dirtyIffQueued.iff table id htable, ← hqueued, ne_eq, hclean, Bool.not_eq_false]

/-- A state without a slot shows a row without one. -/
theorem modelled_of_empty {table id : String} (htable : Separable table)
    {edits : List QueuedWrite} {store : Store} {state : WriteModel.State} {bound : Nat}
    (hinv : Inv bound state) (hmatched : store.Matched)
    (hidle : state.connected = true ∧ state.inFlightKey = none)
    (hgeneration : state.localGeneration = edits.length) (hempty : state.queuedKey = none)
    (hnone : ∀ entry ∈ store.queue, entry.sameRow table id ≠ true) :
    Modelled table id (edits ++ []) store state := by
  rw [List.append_nil]
  apply modelled_of_queued htable hinv hmatched hidle hgeneration
  · refine ⟨fun hsome => absurd hempty hsome, ?_⟩
    rintro ⟨entry, hentry, hsame⟩
    exact absurd hsame (hnone entry hentry)
  · exact fun entry hentry hsame => absurd hsame (hnone entry hentry)

/-- The queue of the row is as it was. -/
def Store.SameSlot (before after : Store) (table id : String) : Prop :=
  ∀ entry, entry.sameRow table id = true → (entry ∈ after.queue ↔ entry ∈ before.queue)

theorem Store.SameSlot.queuedFor {before after : Store} {table id : String}
    (h : before.SameSlot after table id) :
    after.QueuedFor table id ↔ before.QueuedFor table id := by
  constructor
  · rintro ⟨entry, hentry, hsame⟩
    exact ⟨entry, (h entry hsame).mp hentry, hsame⟩
  · rintro ⟨entry, hentry, hsame⟩
    exact ⟨entry, (h entry hsame).mpr hentry, hsame⟩

theorem Modelled.sameSlot {table id : String} (htable : Separable table) {edits : List QueuedWrite}
    {before after : Store} {state : WriteModel.State} {bound : Nat} (hinv : Inv bound state)
    (h : Modelled table id edits before state) (hmatched : after.Matched)
    (hsame : before.SameSlot after table id) : Modelled table id edits after state :=
  modelled_of_queued htable hinv hmatched h.idle h.generation (h.queued.trans hsame.queuedFor.symm)
    fun entry hentry hrow => h.slot entry ((hsame entry hrow).mp hentry) hrow

section Step

variable {table id : String} {edits : List QueuedWrite} {store : Store} {state : WriteModel.State}
  {bound : Nat}

/-- After the effect the model is where the trace takes it, and shows the row. -/
def Simulates (table id : String) (bound : Nat) (edits : List QueuedWrite) (store : Store)
    (state : WriteModel.State) (effect : Effect) : Prop :=
  ∃ after, WriteModel.run bound state (effect.actions table id store) = some after ∧
    Modelled table id (edits ++ effect.edits table id) (effect.apply store) after

theorem Modelled.unmoved (htable : Separable table) (hinv : Inv bound state)
    (h : Modelled table id edits store state) {effect : Effect}
    (hmatched : (effect.apply store).Matched)
    (hactions : effect.actions table id store = []) (hedits : effect.edits table id = [])
    (hsame : store.SameSlot (effect.apply store) table id) :
    Simulates table id bound edits store state effect := by
  refine ⟨state, by rw [hactions]; rfl, ?_⟩
  rw [hedits, List.append_nil]
  exact h.sameSlot htable hinv hmatched hsame

theorem Modelled.edited (htable : Separable table) (hslots : store.Slots)
    (hinv : Inv bound state) (h : Modelled table id edits store state) {write : QueuedWrite}
    (hwrites : Separable write.table) (hmatched : store.Matched) (syncedAtMs : Option Nat)
    (hroom : ((store.editRow write syncedAtMs).enqueue write).1.2 = none)
    (hbound : (edits ++ (Effect.edited write syncedAtMs).edits table id).length ≤ bound) :
    Simulates table id bound edits store state (.edited write syncedAtMs) := by
  have hafter : ((Effect.edited write syncedAtMs).apply store).Matched :=
    hmatched.edited hslots hwrites syncedAtMs hroom
  have hedited : (store.editRow write syncedAtMs).Slots := hslots.of_same rfl rfl
  have htakes := (hedited.enqueue hroom).2
  by_cases hrow : write.table = table ∧ write.id = id
  · have hedits : (Effect.edited write syncedAtMs).edits table id = [write] := if_pos hrow
    have hactions : (Effect.edited write syncedAtMs).actions table id store = [.localWrite] :=
      if_pos hrow
    rw [hedits, List.length_append, List.length_singleton, ← h.generation] at hbound
    let after : WriteModel.State :=
      { state with
        queuedKey := some (state.localGeneration + 1)
        localGeneration := state.localGeneration + 1
        dirty := true }
    have happly : WriteModel.Action.apply bound state .localWrite = some after := if_pos hbound
    have hrun : WriteModel.run bound state [.localWrite] = some after :=
      run_cons.mpr ⟨after, happly, rfl⟩
    refine ⟨after, by rw [hactions, hrun], ?_⟩
    rw [hedits]
    apply modelled_of_queued htable (hinv.step happly) hafter h.idle
    · simp [after, h.generation]
    · refine ⟨fun _ => ⟨_, (htakes _).mpr (Or.inl rfl), ?_⟩, fun _ => nofun⟩
      exact Store.sameRow_iff.mpr hrow
    · intro entry hentry hsame
      rcases (htakes entry).mp hentry with rfl | ⟨-, hother⟩
      · exact List.getLast?_concat
      · obtain ⟨rfl, rfl⟩ := hrow
        rw [hsame] at hother
        cases hother
  · apply h.unmoved htable hinv hafter (if_neg hrow) (if_neg hrow)
    intro entry hsame
    refine (htakes entry).trans ⟨?_, fun hentry => Or.inr ⟨hentry, ?_⟩⟩
    · rintro (rfl | ⟨hentry, -⟩)
      · exact absurd (Store.sameRow_iff.mp hsame) hrow
      · exact hentry
    · apply Store.not_sameRow_iff.mpr
      rintro ⟨htable, hid⟩
      obtain ⟨hentryTable, hentryId⟩ := Store.sameRow_iff.mp hsame
      exact hrow ⟨htable.symm.trans hentryTable, hid.symm.trans hentryId⟩

/-- A change that outruns a dirty row drops its slot. -/
theorem Store.Slots.receive_conflict (hslots : store.Slots) {change : ChangeEvent}
    {stored : StoredRow} (hstored : store.getRow change.table change.id = some stored)
    (hdirty : stored.rowMeta.dirty = true) (hnewer : stored.rowMeta.version < change.version)
    (now : Nat) (entry : QueueEntry) : entry ∈ (store.receive change now).queue ↔
      entry ∈ store.queue ∧ entry.sameRow change.table change.id = false := by
  have hafter : store.receive change now =
      Store.retireRow change.table change.id store.queue (store.adopt change now) := by
    simp [Store.receive, hstored, hdirty, hnewer.not_gt, hnewer.ne']
  have hadopted : (store.adopt change now).Slots := hslots.of_same rfl rfl
  rw [hafter]
  exact (hadopted.retireRow change.table change.id).2 entry

/-- Any other change leaves the slots. -/
theorem receive_queue {change : ChangeEvent} (now : Nat)
    (h : ∀ stored, store.getRow change.table change.id = some stored →
      stored.rowMeta.dirty = true → ¬ stored.rowMeta.version < change.version) :
    (store.receive change now).queue = store.queue := by
  rcases receive_cases now h with hsame | ⟨hadopted, -⟩
  · rw [hsame]
  · rw [hadopted]
    rfl

theorem Modelled.received (htable : Separable table) (hslots : store.Slots)
    (hinv : Inv bound state) (h : Modelled table id edits store state) {change : ChangeEvent}
    (hchange : Separable change.table) (hmatched : store.Matched) (now : Nat) :
    Simulates table id bound edits store state (.received change now) := by
  have hafter : ((Effect.received change now).apply store).Matched :=
    hmatched.received hslots hchange now
  by_cases houtruns : ∃ stored, store.getRow change.table change.id = some stored ∧
      stored.rowMeta.dirty = true ∧ stored.rowMeta.version < change.version
  · obtain ⟨stored, hstored, hdirty, hnewer⟩ := houtruns
    have hqueue := hslots.receive_conflict hstored hdirty hnewer now
    by_cases hrow : change.table = table ∧ change.id = id
    · have hconflict : reconcile ((store.getRow table id).map StoredRow.localRow) change =
          .conflict := by
        rw [← hrow.1, ← hrow.2, hstored]
        exact (reconcile_conflict_iff _ _).mpr ⟨hdirty, hnewer⟩
      have hactions : (Effect.received change now).actions table id store =
          [.serverWinsConflict] := if_pos ⟨hrow, hconflict⟩
      obtain ⟨rfl, rfl⟩ := hrow
      have hsome : state.queuedKey ≠ none :=
        h.queued.mpr ((hmatched.dirtyIffQueued.iff _ _ htable).mp ⟨stored, hstored, hdirty⟩)
      let after : WriteModel.State :=
        { state with
          queuedKey := none, inFlightKey := none, inFlightGeneration := 0, dirty := false,
          needsRetry := false, lastSettledKey := none, lastRetiredKey := none,
          sawServerConflict := true }
      have happly : WriteModel.Action.apply bound state .serverWinsConflict = some after :=
        if_pos hsome
      refine ⟨after, by rw [hactions]; exact run_cons.mpr ⟨after, happly, rfl⟩, ?_⟩
      apply modelled_of_empty htable (hinv.step happly) hafter ⟨h.idle.1, rfl⟩ h.generation rfl
      intro entry hentry hsame
      have hother := ((hqueue entry).mp hentry).2
      rw [hsame] at hother
      cases hother
    · apply h.unmoved htable hinv hafter (if_neg fun hboth => hrow hboth.1) rfl
      intro entry hsame
      refine (hqueue entry).trans (and_iff_left ?_)
      apply Store.not_sameRow_iff.mpr
      rintro ⟨hchangeTable, hchangeId⟩
      obtain ⟨hentryTable, hentryId⟩ := Store.sameRow_iff.mp hsame
      exact hrow ⟨hchangeTable.symm.trans hentryTable, hchangeId.symm.trans hentryId⟩
  · have hqueue : (store.receive change now).queue = store.queue :=
      receive_queue now fun stored hstored hdirty hnewer =>
        houtruns ⟨stored, hstored, hdirty, hnewer⟩
    have hcalm : ¬ ((change.table = table ∧ change.id = id) ∧
        reconcile ((store.getRow table id).map StoredRow.localRow) change = .conflict) := by
      rintro ⟨⟨rfl, rfl⟩, hconflict⟩
      cases hstored : store.getRow change.table change.id with
      | none =>
          rw [hstored] at hconflict
          simp only [Option.map_none, reconcile] at hconflict
          split at hconflict <;> cases hconflict
      | some stored =>
          rw [hstored] at hconflict
          obtain ⟨hdirty, hnewer⟩ := (reconcile_conflict_iff _ _).mp hconflict
          exact houtruns ⟨stored, hstored, hdirty, hnewer⟩
    apply h.unmoved htable hinv hafter (if_neg hcalm) rfl
    intro entry _
    show entry ∈ (store.receive change now).queue ↔ _
    rw [hqueue]

theorem Modelled.settled (htable : Separable table) (hslots : store.Slots)
    (hinv : Inv bound state) (h : Modelled table id edits store state) {entry : QueueEntry}
    (hentry : entry ∈ store.queue) (hmatched : store.Matched) (committedVersion : Option Hlc)
    (now : Nat) :
    Simulates table id bound edits store state (.settled entry committedVersion now) := by
  have hafter : ((Effect.settled entry committedVersion now).apply store).Matched :=
    hmatched.settled hslots hentry committedVersion now
  by_cases hrow : entry.table = table ∧ entry.id = id
  · have hsame : entry.sameRow table id = true := Store.sameRow_iff.mpr hrow
    have hsome : state.queuedKey ≠ none := h.queued.mpr ⟨entry, hentry, hsame⟩
    let sent : WriteModel.State :=
      { state with
        inFlightKey := state.queuedKey, inFlightGeneration := state.localGeneration,
        needsRetry := false,
        sawRetryAfterDisconnect := state.sawRetryAfterDisconnect || state.needsRetry }
    have hsend : WriteModel.Action.apply bound state .send = some sent :=
      if_pos ⟨h.idle.1, hsome, h.idle.2⟩
    cases hretires : (store.settleAck (.ofEntry entry committedVersion now)).1.1 with
    | true =>
        have hactions : (Effect.settled entry committedVersion now).actions table id store =
            [.send, .acknowledge] := by
          simp only [Effect.actions, hrow, and_self, if_true, hretires]
        let after : WriteModel.State :=
          { sent with
            queuedKey := none, dirty := false, inFlightKey := none, inFlightGeneration := 0
            lastSettledKey := state.queuedKey, lastRetiredKey := state.queuedKey
            sawLateAck := sent.sawLateAck || state.localGeneration < state.localGeneration }
        have hack : WriteModel.Action.apply bound sent .acknowledge = some after := by
          simp [WriteModel.Action.apply, sent, after, hsome]
        refine ⟨after, by rw [hactions]; exact run_cons.mpr ⟨sent, hsend, run_cons.mpr
          ⟨after, hack, rfl⟩⟩, ?_⟩
        apply modelled_of_empty htable ((hinv.step hsend).step hack) hafter ⟨h.idle.1, rfl⟩
          h.generation rfl
        rcases hslots.settleAck hentry committedVersion now with hkept | ⟨-, -, -, hqueue, -⟩
        · exact absurd hkept (Store.settleAck_shortens hretires)
        · intro other hother hsameRow
          obtain ⟨hold, hne⟩ := (hqueue other).mp hother
          obtain ⟨rfl, rfl⟩ := hrow
          exact hne (hslots.single other hold entry hentry hsameRow)
    | false =>
        have hactions : (Effect.settled entry committedVersion now).actions table id store =
            [.send, .sendFailure] := by
          simp only [Effect.actions, hrow, and_self, if_true, hretires]
          rfl
        let after : WriteModel.State :=
          { sent with inFlightKey := none, inFlightGeneration := 0, needsRetry := true }
        have hfail : WriteModel.Action.apply bound sent .sendFailure = some after := if_pos hsome
        have hkept : (Effect.settled entry committedVersion now).apply store = store :=
          Store.settleAck_refused hretires
        refine ⟨after, by rw [hactions]; exact run_cons.mpr ⟨sent, hsend, run_cons.mpr
          ⟨after, hfail, rfl⟩⟩, ?_⟩
        rw [hkept]
        show Modelled table id (edits ++ []) store after
        rw [List.append_nil]
        exact ⟨⟨h.idle.1, rfl⟩, h.generation, h.dirty, h.queued, h.slot⟩
  · apply h.unmoved htable hinv hafter (if_neg hrow) rfl
    intro other hsame
    rcases hslots.settleAck hentry committedVersion now with hkept | ⟨-, -, -, hqueue, -⟩
    · show other ∈ (store.settleAck _).2.queue ↔ _
      rw [hkept]
    · refine (hqueue other).trans (and_iff_left ?_)
      rintro rfl
      exact hrow (Store.sameRow_iff.mp hsame)

/-- Every effect of a sparing run is one of the model. -/
theorem Modelled.step (htable : Separable table) (hslots : store.Slots) (hmatched : store.Matched)
    (hinv : Inv bound state) (h : Modelled table id edits store state) {effect : Effect}
    (hallows : sparingRules.Allows effect store)
    (hbound : (edits ++ effect.edits table id).length ≤ bound) :
    Simulates table id bound edits store state effect := by
  cases effect with
  | edited write syncedAtMs =>
      exact h.edited htable hslots hinv hallows.1 hmatched syncedAtMs hallows.2 hbound
  | received change now => exact h.received htable hslots hinv hallows hmatched now
  | settled entry committedVersion now =>
      exact h.settled htable hslots hinv hallows.1 hmatched committedVersion now
  | served change committedVersion now =>
      have hafter := sparingRules_keep _ store hslots hmatched hallows
      exact h.unmoved htable hinv hafter rfl rfl fun _ _ => Iff.rfl

end Step

section Runs

/-- One effect after the other, each allowed. -/
def Follows (effects : List Effect) (store : Store) : Prop :=
  Run.Along (fun store effect => Effect.apply effect store)
    (fun store effect => sparingRules.Allows effect store) store effects

def applyAll (effects : List Effect) (store : Store) : Store :=
  Run.final (fun store effect => Effect.apply effect store) store effects

theorem exists_effects {before after : Journal} (h : sparingRules.Reaches before after) :
    ∃ effects, Follows effects before.store ∧ after.store = applyAll effects before.store ∧
      after.queued = before.queued ++ effects.flatMap Effect.queues := by
  induction h with
  | refl => exact ⟨[], trivial, rfl, (List.append_nil _).symm⟩
  | @tail middle _ _ hmoves ih =>
      obtain ⟨effects, hfollows, hstore, hqueued⟩ := ih
      obtain ⟨effect, hallows, rfl⟩ := hmoves
      rw [hstore] at hallows
      refine ⟨effects ++ [effect], ?_, ?_, ?_⟩
      · exact (Run.along_append _ _ _).mpr ⟨hfollows, hallows, trivial⟩
      · show effect.apply middle.store = Run.final _ before.store (effects ++ [effect])
        rw [hstore, Run.final_append]
        rfl
      · simp [Effect.record, hqueued]

/-- The writes of a row among effects. -/
def editsOf (table id : String) (effects : List Effect) : List QueuedWrite :=
  effects.flatMap (Effect.edits table id)

/-- The writes of a row among writes. -/
def writesOf (table id : String) (writes : List QueuedWrite) : List QueuedWrite :=
  writes.filter fun write => write.table = table ∧ write.id = id

theorem writesOf_queues (table id : String) (effects : List Effect) :
    writesOf table id (effects.flatMap Effect.queues) = editsOf table id effects := by
  induction effects with
  | nil => rfl
  | cons effect effects ih =>
      unfold writesOf editsOf at ih ⊢
      rw [List.flatMap_cons, List.flatMap_cons, List.filter_append, ih]
      cases effect <;> simp [Effect.queues, Effect.edits, List.filter_singleton]

theorem Modelled.effects {table id : String} (htable : Separable table) {bound : Nat}
    {effects : List Effect} {edits : List QueuedWrite} {store : Store} {state : WriteModel.State}
    (hslots : store.Slots) (hmatched : store.Matched) (hinv : Inv bound state)
    (h : Modelled table id edits store state) (hfollows : Follows effects store)
    (hbound : (edits ++ editsOf table id effects).length ≤ bound) :
    ∃ after, WriteModel.run bound state (modelRun table id store effects) = some after ∧
      Modelled table id (edits ++ editsOf table id effects) (applyAll effects store) after := by
  induction effects generalizing edits store state with
  | nil => exact ⟨state, rfl, by simpa [editsOf, applyAll] using h⟩
  | cons effect effects ih =>
      have hsplit : edits ++ editsOf table id (effect :: effects) =
          edits ++ effect.edits table id ++ editsOf table id effects := by
        simp [editsOf]
      rw [hsplit] at hbound ⊢
      obtain ⟨hallows, hrest⟩ := hfollows
      have hnow : (edits ++ effect.edits table id).length ≤ bound := by
        rw [List.length_append] at hbound
        omega
      obtain ⟨middle, hrun, hmodelled⟩ := h.step htable hslots hmatched hinv hallows hnow
      obtain ⟨after, hafter, hfinal⟩ := ih (Rules.Allows.slots hallows hslots)
        (sparingRules_keep effect store hslots hmatched hallows) (hinv.run hrun) hmodelled hrest
        hbound
      exact ⟨after, run_append.mpr ⟨middle, hrun, hafter⟩, hfinal⟩

theorem modelled_empty {store : Store} (h : store.Empty) (table id : String) :
    Modelled table id [] store WriteModel.init := by
  refine ⟨⟨rfl, rfl⟩, rfl, ?_, ?_, ?_⟩
  · refine ⟨nofun, ?_⟩
    rintro ⟨stored, hstored, -⟩
    rw [Store.getRow, h.rows] at hstored
    cases hstored
  · refine ⟨fun hsome => absurd rfl hsome, ?_⟩
    rintro ⟨entry, hentry, -⟩
    rw [h.queue] at hentry
    cases hentry
  · intro entry hentry
    rw [h.queue] at hentry
    cases hentry

/-- A sequential run refines the model at a row: its effects on the store, whose edits of
the row are the writes of it that the calls queued, are a run of the model, which ends in
a state that shows the row. -/
def RefinesModel (start final : World) (table id : String) : Prop :=
  ∃ effects writes, Follows effects start.store ∧
    final.store = applyAll effects start.store ∧
    final.queued = start.queued ++ writes ∧
    editsOf table id effects = writesOf table id writes ∧
    ∃ state, WriteModel.run (writesOf table id writes).length WriteModel.init
        (modelRun table id start.store effects) = some state ∧
      Modelled table id (writesOf table id writes) final.store state

/-- Every sequential run from an empty store, in which no server-first write is
acknowledged over a queued write of its row, refines the model of the write lifecycle at
every row. -/
theorem client_refines_write_model (config : ClientConfig) (start : World)
    (events : List CallEvent) (hempty : start.store.Empty)
    (hsparing : Run.Along (callStep config) (SparingCall config) start events)
    (table id : String) (htable : Separable table) :
    RefinesModel start (Run.final (callStep config) start events) table id := by
  have hreached : (Run.final (callStep config) start events).store.Slots ∧
      sparingRules.Reaches start.journal (Run.final (callStep config) start events).journal := by
    refine Run.induction (J := fun world : World =>
      world.store.Slots ∧ sparingRules.Reaches start.journal world.journal) ?_
      ⟨hempty.slots, .refl⟩ hsparing
    rintro world event ⟨hslots, hbefore⟩ hevent
    have hheeds : (event.1.program config).Heeds
        (Permits (sparingRules.answering (event.1.servesFirst config))) event.2 world := by
      rw [sparingRules_answering]
      exact hevent.2
    have hcall := call_reaches config hslots (sparingRules_covers hevent.1) hheeds
    exact ⟨hcall.slots hslots, hbefore.trans hcall⟩
  obtain ⟨effects, hfollows, hfinal, hqueued⟩ := exists_effects hreached.2
  obtain ⟨state, hrun, hmodelled⟩ := (modelled_empty hempty table id).effects htable hempty.slots
    hempty.matched (init_inv _) hfollows (le_refl _)
  have hedits := writesOf_queues table id effects
  refine ⟨effects, effects.flatMap Effect.queues, hfollows, hfinal, hqueued, hedits.symm, state, ?_⟩
  rw [hedits]
  refine ⟨hrun, ?_⟩
  have hstore : (Run.final (callStep config) start events).store =
      applyAll effects start.store := hfinal
  rw [hstore]
  exact hmodelled

/-- The edit of a row meets a later change of it. -/
def outrunEdit : List CallEvent :=
  [editOffline,
    (.applyChange
      { table := "todos", op := .upsert, id := "a", row := some (.str "server"), writeKey := none,
        version := { wallMs := 9, counter := 0, actor := "server" } }, [])]

theorem outrun_edit_refines :
    RefinesModel emptyReplica (Run.final (callStep sendingConfig) emptyReplica outrunEdit)
      "todos" "a" :=
  client_refines_write_model sendingConfig emptyReplica outrunEdit emptyReplica_empty
    ⟨⟨by decide, trivial, trivial, trivial, trivial, trivial, rfl, trivial⟩,
      ⟨by decide, trivial, trivial, trivial, trivial, trivial, trivial, trivial, trivial⟩, trivial⟩
    "todos" "a" (by decide)

end Runs

end ZedSync.Js
