import ZedSync.Js.Sequential

/-!
A row is dirty exactly while a write of it is queued, and then at that write's
version: `queue_matches_dirty` of `formal/write_lifecycle.qnt` over the runs of
the client. The one effect that breaks it is the put of a server-first write,
which cleans its row and leaves the slot an earlier optimistic write has there.
-/

namespace ZedSync.Js

open Async

namespace Store

def DirtyAt (store : Store) (table id : String) : Prop :=
  ∃ stored, store.getRow table id = some stored ∧ stored.rowMeta.dirty = true

def QueuedFor (store : Store) (table id : String) : Prop :=
  ∃ entry ∈ store.queue, entry.sameRow table id = true

/-- Every row is dirty exactly while a write of it is queued, at the base version
of that write. -/
structure DirtyIffQueued (store : Store) : Prop where
  iff : ∀ table id, Separable table → (store.DirtyAt table id ↔ store.QueuedFor table id)
  base : ∀ table id, Separable table → ∀ entry ∈ store.queue, entry.sameRow table id = true →
    ∃ stored, store.getRow table id = some stored ∧
      stored.rowMeta.version = entry.baseVersion

/-- The same, by the keys of the rows: each slot has its row, dirty at its base, and
each dirty row a slot. -/
structure Matched (store : Store) : Prop where
  slots : ∀ entry ∈ store.queue, Separable entry.table ∧
    ∃ stored, store.getRow entry.table entry.id = some stored ∧
      stored.rowMeta.dirty = true ∧ stored.rowMeta.version = entry.baseVersion
  rows : ∀ key stored, store.rows key = some stored → stored.rowMeta.dirty = true →
    ∃ entry ∈ store.queue, rowKey entry.table entry.id = key

theorem Empty.matched {store : Store} (h : store.Empty) : store.Matched := by
  refine ⟨fun entry hentry => ?_, fun key stored hstored _ => ?_⟩
  · rw [h.queue] at hentry
    cases hentry
  · rw [h.rows key] at hstored
    cases hstored

theorem Matched.dirtyIffQueued {store : Store} (h : store.Matched) : store.DirtyIffQueued := by
  refine ⟨fun table id htable => ⟨?_, ?_⟩, fun table id _ entry hentry hsame => ?_⟩
  · rintro ⟨stored, hstored, hdirty⟩
    obtain ⟨entry, hentry, hkey⟩ := h.rows _ stored hstored hdirty
    obtain ⟨hseparable, -⟩ := h.slots entry hentry
    exact ⟨entry, hentry, sameRow_iff.mpr (rowKey_inj hseparable htable hkey)⟩
  · rintro ⟨entry, hentry, hsame⟩
    obtain ⟨-, stored, hstored, hdirty, -⟩ := h.slots entry hentry
    obtain ⟨rfl, rfl⟩ := sameRow_iff.mp hsame
    exact ⟨stored, hstored, hdirty⟩
  · obtain ⟨-, stored, hstored, -, hversion⟩ := h.slots entry hentry
    obtain ⟨rfl, rfl⟩ := sameRow_iff.mp hsame
    exact ⟨stored, hstored, hversion⟩

section Keeps

variable {store after : Store} {table id : String}

/-- A step that rewrites at most one row and takes away the slots of that row only. -/
structure CleansRow (store after : Store) (table id : String) : Prop where
  queue : ∀ entry, entry ∈ after.queue ↔
    entry ∈ store.queue ∧ entry.sameRow table id = false
  clean : ∀ stored, after.getRow table id = some stored → stored.rowMeta.dirty = false
  others : ∀ key, key ≠ rowKey table id → after.rows key = store.rows key

theorem Matched.cleansRow (h : store.Matched) (htable : Separable table)
    (hcleans : CleansRow store after table id) : after.Matched := by
  refine ⟨fun entry hentry => ?_, fun key stored hstored hdirty => ?_⟩
  · obtain ⟨hold, hrow⟩ := (hcleans.queue entry).mp hentry
    obtain ⟨hseparable, stored, hstored, hmatched⟩ := h.slots entry hold
    have hkey : rowKey entry.table entry.id ≠ rowKey table id := fun hkey =>
      not_sameRow_iff.mp hrow (rowKey_inj hseparable htable hkey)
    exact ⟨hseparable, stored, (hcleans.others _ hkey).trans hstored, hmatched⟩
  · have hkey : key ≠ rowKey table id := by
      rintro rfl
      rw [hcleans.clean stored hstored] at hdirty
      cases hdirty
    rw [hcleans.others key hkey] at hstored
    obtain ⟨entry, hentry, hsame⟩ := h.rows key stored hstored hdirty
    refine ⟨entry, (hcleans.queue entry).mpr ⟨hentry, not_sameRow_iff.mpr ?_⟩, hsame⟩
    rintro ⟨rfl, rfl⟩
    exact hkey hsame.symm

/-- Cleaning a row without a slot. -/
theorem cleansRow_setRow {stored : StoredRow} (hclean : stored.rowMeta.dirty = false)
    (hnone : ¬ store.QueuedFor table id) :
    CleansRow store (store.setRow table id stored) table id := by
  refine ⟨fun entry => ?_, fun other hother => ?_, setRow_others stored⟩
  · rw [setRow_queue]
    refine ⟨fun hentry => ⟨hentry, ?_⟩, And.left⟩
    by_contra hrow
    exact hnone ⟨entry, hentry, by simpa using hrow⟩
  · rw [getRow_setRow_self] at hother
    obtain rfl := Option.some.inj hother
    exact hclean

theorem Matched.edited (h : store.Matched) (hslots : store.Slots) {write : QueuedWrite}
    (htable : Separable write.table) (syncedAtMs : Option Nat)
    (hroom : ((store.editRow write syncedAtMs).enqueue write).1.2 = none) :
    ((store.editRow write syncedAtMs).enqueue write).2.Matched := by
  have hedited : (store.editRow write syncedAtMs).Slots := hslots.of_same rfl rfl
  obtain ⟨-, htakes⟩ := hedited.enqueue hroom
  have hrows := enqueue_rows (store.editRow write syncedAtMs) write
  refine ⟨fun entry hentry => ?_, fun key stored hstored hdirty => ?_⟩
  · rcases (htakes entry).mp hentry with rfl | ⟨hold, hrow⟩
    · let put : StoredRow :=
        { row := write.localRow
          rowMeta := { version := write.baseVersion, dirty := true, syncedAtMs := syncedAtMs } }
      have hput : ((store.editRow write syncedAtMs).enqueue write).2.getRow write.table write.id =
          some put := by
        rw [getRow, hrows]
        exact getRow_setRow_self _ _ _ _
      exact ⟨htable, put, hput, rfl, rfl⟩
    · obtain ⟨hseparable, stored, hstored, hmatched⟩ := h.slots entry hold
      have hkey : rowKey entry.table entry.id ≠ rowKey write.table write.id := fun hkey =>
        not_sameRow_iff.mp hrow (rowKey_inj hseparable htable hkey)
      refine ⟨hseparable, stored, ?_, hmatched⟩
      rw [getRow, hrows, editRow, setRow_others _ _ hkey]
      exact hstored
  · by_cases hkey : key = rowKey write.table write.id
    · exact ⟨_, (htakes _).mpr (Or.inl rfl), hkey.symm⟩
    · rw [hrows, editRow, setRow_others _ _ hkey] at hstored
      obtain ⟨entry, hentry, hsame⟩ := h.rows key stored hstored hdirty
      refine ⟨entry, (htakes entry).mpr (Or.inr ⟨hentry, not_sameRow_iff.mpr ?_⟩), hsame⟩
      rintro ⟨htable, hid⟩
      rw [htable, hid] at hsame
      exact hkey hsame.symm

theorem Matched.not_queuedFor (h : store.Matched) (hclean : ∀ stored,
    store.getRow table id = some stored → stored.rowMeta.dirty = false) :
    ¬ store.QueuedFor table id := by
  rintro ⟨entry, hentry, hsame⟩
  obtain ⟨-, stored, hstored, hdirty, -⟩ := h.slots entry hentry
  obtain ⟨rfl, rfl⟩ := sameRow_iff.mp hsame
  rw [hclean stored hstored] at hdirty
  cases hdirty

theorem Matched.received (h : store.Matched) (hslots : store.Slots) {change : ChangeEvent}
    (htable : Separable change.table) (now : Nat) : (store.receive change now).Matched := by
  rcases hslots.receive change now with hsame | ⟨hadopted, hclean⟩ | ⟨hrows, -, hqueue⟩
  · rw [hsame]
    exact h
  · rw [hadopted]
    exact h.cleansRow htable (cleansRow_setRow rfl (h.not_queuedFor hclean))
  · apply h.cleansRow htable
    refine ⟨hqueue, fun stored hstored => ?_, fun key hkey => ?_⟩
    · rw [getRow, hrows] at hstored
      obtain rfl := Option.some.inj ((getRow_setRow_self _ _ _ _).symm.trans hstored)
      rfl
    · rw [hrows]
      exact setRow_others _ key hkey

theorem Matched.settled (h : store.Matched) (hslots : store.Slots) {entry : QueueEntry}
    (hentry : entry ∈ store.queue) (committedVersion : Option Hlc) (now : Nat) :
    (store.settleAck (.ofEntry entry committedVersion now)).2.Matched := by
  rcases hslots.settleAck hentry committedVersion now with hsame | ⟨stored, -, -, hqueue, hrows⟩
  · rw [hsame]
    exact h
  · have hcleans : CleansRow store (store.settleAck (.ofEntry entry committedVersion now)).2
        entry.table entry.id := by
      refine ⟨fun other => ?_, fun cleaned hcleaned => ?_, fun key hkey => ?_⟩
      · rw [hqueue other]
        refine and_congr_right fun hother => ⟨fun hne => ?_, fun hrow => ?_⟩
        · by_contra hrow
          exact hne (hslots.single other hother entry hentry (by simpa using hrow))
        · rintro rfl
          exact not_sameRow_iff.mp hrow ⟨rfl, rfl⟩
      · rw [getRow, hrows] at hcleaned
        obtain rfl := Option.some.inj ((getRow_setRow_self _ _ _ _).symm.trans hcleaned)
        rfl
      · rw [hrows]
        exact setRow_others _ key hkey
    exact h.cleansRow (h.slots entry hentry).1 hcleans

end Keeps

end Store

/-- A server-first write is not acknowledged while a write of its row is queued. -/
def SparesQueued (servesFirst : Bool) (store : Store) (change : ChangeEvent)
    (_ : Option Hlc) : Prop :=
  servesFirst = true → ¬ store.QueuedFor change.table change.id

/-- The rules of such a run. -/
def sparingRules : Rules where
  edits := Separable
  delivers := fun change => Separable change.table
  answers := fun _ _ _ => True
  serves := SparesQueued true

/-- The tables a call names. -/
def Call.tables : Call → List String
  | .applyChange incoming => [incoming.table]
  | .hydrate changes => changes.map (·.table)
  | .write table _ _ _ => [table]
  | .flushQueue _ | .newClient _ => []

theorem sparingRules_keep : sparingRules.Keeps Store.Matched := by
  intro effect store hslots hmatched hallows
  cases effect with
  | edited write syncedAtMs => exact hmatched.edited hslots hallows.1 syncedAtMs hallows.2
  | received change now => exact hmatched.received hslots hallows now
  | settled entry committedVersion now => exact hmatched.settled hslots hallows.1 _ now
  | served change committedVersion now =>
      obtain ⟨htable, hspares⟩ := hallows
      exact hmatched.cleansRow htable (Store.cleansRow_setRow rfl (hspares rfl))

theorem sparingRules_covers {call : Call} (h : ∀ table ∈ call.tables, Separable table) :
    sparingRules.Covers call := by
  cases call with
  | applyChange incoming => exact h _ List.mem_cons_self
  | hydrate changes => exact fun change hchange => h _ (List.mem_map_of_mem hchange)
  | write table id row options => exact h _ List.mem_cons_self
  | flushQueue policy => trivial
  | newClient newProcess => trivial

theorem sparingRules_answering (servesFirst : Bool) :
    sparingRules.answering servesFirst = SparesQueued servesFirst := by
  cases servesFirst with
  | true => rfl
  | false =>
      funext store change committedVersion
      simp [Rules.answering, sparingRules, SparesQueued]

/-- A call that keeps the queue below its bound, and no server-first write of it is
acknowledged while a write of its row is queued. -/
def SparingCall (config : ClientConfig) (world : World) (event : CallEvent) : Prop :=
  (∀ table ∈ event.1.tables, Separable table) ∧
    (event.1.program config).Heeds (Permits (SparesQueued (event.1.servesFirst config)))
      event.2 world

/-- In every sequential run from an empty store in which no server-first write is
acknowledged while a write of its row is queued, every row is dirty exactly while a
write of it is queued, and then at that write's base version. -/
theorem dirty_iff_queued (config : ClientConfig) (start : World) (events : List CallEvent)
    (hempty : start.store.Empty)
    (hsparing : Run.Along (callStep config) (SparingCall config) start events) :
    (Run.final (callStep config) start events).store.DirtyIffQueued := by
  have hrules := hsparing.mono fun world event hevent =>
    (⟨sparingRules_covers hevent.1, by rw [sparingRules_answering]; exact hevent.2⟩ :
      sparingRules.Covers event.1 ∧ (event.1.program config).Heeds
        (Permits (sparingRules.answering (event.1.servesFirst config))) event.2 world)
  have hmatched := (Rules.run_keeps config sparingRules_keep hempty.slots hempty.matched hrules).2
  exact hmatched.dirtyIffQueued

/-- The condition leaves out nothing: a server-first put over a queued write of its
row ends the match. -/
theorem served_over_queued {store : Store} {change : ChangeEvent}
    (htable : Separable change.table) (hqueued : store.QueuedFor change.table change.id)
    (committedVersion : Option Hlc) (now : Nat) :
    ¬ (Effect.apply (.served change committedVersion now) store).DirtyIffQueued := by
  intro h
  obtain ⟨stored, hstored, hdirty⟩ := (h.iff change.table change.id htable).mpr hqueued
  obtain rfl := Option.some.inj ((Store.getRow_setRow_self _ _ _ _).symm.trans hstored)
  cases hdirty

/-- A row edited offline, and a later version of a row written through the server. -/
def editOffline : CallEvent :=
  (.write "todos" "a" (some (.str "edit")) { mode := some .localOnly }, [])

def writeThrough (id : String) : CallEvent :=
  (.write "todos" id (some (.str "served")) { mode := some .serverFirst },
    [{}, { now := 2 }, {}, {},
      { response := .ok (some { wallMs := 5, counter := 0, actor := "server" }) }])

theorem emptyReplica_empty : emptyReplica.store.Empty := ⟨fun _ => rfl, rfl⟩

/-- The rows are different ones. -/
theorem edited_and_served_apart :
    (Run.final (callStep sendingConfig) emptyReplica
      [editOffline, writeThrough "b"]).store.DirtyIffQueued := by
  have hapart : ∀ world : World, world.store.queue = (callStep sendingConfig emptyReplica
      editOffline).store.queue → ¬ world.store.QueuedFor "todos" "b" := by
    rintro world hqueue ⟨entry, hentry, hsame⟩
    rw [hqueue] at hentry
    obtain rfl := List.mem_singleton.mp hentry
    exact absurd hsame (by decide)
  refine dirty_iff_queued sendingConfig emptyReplica _ emptyReplica_empty
    ⟨⟨by decide, trivial, trivial, trivial, trivial, trivial, rfl, trivial⟩,
      ⟨by decide, trivial, trivial, trivial, trivial, ?_, trivial, trivial, trivial⟩, trivial⟩
  intro change committedVersion hhanded _ _
  obtain rfl := Option.some.inj hhanded
  exact hapart _ rfl

/-- The server-first write of the edited row cleans it and leaves the edit queued;
the next flush sends the older edit after it. -/
theorem served_row_keeps_queued_edit :
    let events := [editOffline, writeThrough "a"]
    let after := Run.final (callStep sendingConfig) emptyReplica events
    emptyReplica.store.Empty ∧
      Run.Along (callStep sendingConfig) (fun world event =>
        (∀ table ∈ event.1.tables, Separable table) ∧
          (event.1.program sendingConfig).Heeds (Permits fun _ _ _ => True) event.2 world)
        emptyReplica events ∧
      ¬ after.store.DirtyIffQueued ∧
      (callStep sendingConfig after (.flushQueue .throwOnly, [])).handed.map (·.row) =
        [some (.str "served"), some (.str "edit")] := by
  refine ⟨emptyReplica_empty,
    ⟨⟨by decide, trivial, trivial, trivial, trivial, trivial, rfl, trivial⟩,
      ⟨by decide, trivial, trivial, trivial, trivial, fun _ _ _ _ => trivial, trivial, trivial,
        trivial⟩, trivial⟩, fun h => ?_, rfl⟩
  have hqueued : (Run.final (callStep sendingConfig) emptyReplica
      [editOffline, writeThrough "a"]).store.QueuedFor "todos" "a" :=
    ⟨_, List.mem_singleton_self _, by decide⟩
  obtain ⟨stored, hstored, hdirty⟩ := (h.iff "todos" "a" (by decide)).mpr hqueued
  obtain rfl := Option.some.inj hstored
  cases hdirty

end ZedSync.Js
