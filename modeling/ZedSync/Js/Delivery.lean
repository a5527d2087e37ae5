import Mathlib.Data.List.Nodup
import ZedSync.Js.Client
import ZedSync.Lib.Newest

/-!
Deliveries one at a time: what a call of `applyChange` does to the store when
nothing else runs, and what a whole sequence of them leaves in one row of a
replica that starts without it and writes nothing itself.
-/

namespace ZedSync.Js

open Async

namespace Store

/-- `#adopt`, as one step. -/
def adopt (store : Store) (incoming : ChangeEvent) (now : Nat) : Store :=
  store.setRow incoming.table incoming.id
    { row := incoming.live,
      rowMeta := { version := incoming.version, dirty := false, syncedAtMs := some now } }

/-- The retirements of `#dropQueuedFor` over a snapshot of the queue. -/
def retireRow (table id : String) (entries : List QueueEntry) (store : Store) : Store :=
  entries.foldl
    (fun store entry => if entry.sameRow table id then store.retire entry.seq else store) store

theorem mem_retireRow (table id : String) (entries : List QueueEntry) (store : Store)
    (entry : QueueEntry) :
    entry ∈ (retireRow table id entries store).queue ↔
      entry ∈ store.queue ∧
        ∀ other ∈ entries, other.sameRow table id = true → entry.seq ≠ other.seq := by
  induction entries generalizing store with
  | nil => simp [retireRow]
  | cons first rest ih =>
      rw [retireRow, List.foldl_cons, ← retireRow, ih]
      split
      · rename_i hsame
        simp [retire, hsame, and_assoc]
      · rename_i hother
        simp [hother]

@[simp] theorem retireRow_rows (table id : String) (entries : List QueueEntry) (store : Store) :
    (retireRow table id entries store).rows = store.rows := by
  induction entries generalizing store with
  | nil => rfl
  | cons first rest ih =>
      rw [retireRow, List.foldl_cons, ← retireRow, ih]
      split <;> rfl

/-- What one delivery does when nothing else runs. -/
def receive (store : Store) (incoming : ChangeEvent) (now : Nat) : Store :=
  match store.getRow incoming.table incoming.id with
  | none => if incoming.op = .upsert then store.adopt incoming now else store
  | some stored =>
      if incoming.version < stored.rowMeta.version then store
      else if incoming.version = stored.rowMeta.version then
        if stored.rowMeta.dirty then store else store.adopt incoming now
      else if stored.rowMeta.dirty then
        retireRow incoming.table incoming.id store.queue (store.adopt incoming now)
      else store.adopt incoming now

end Store

/-- Without outrunning a dirty row, a delivery leaves the store alone, or adopts the
change over a row that is absent or clean. -/
theorem receive_cases {store : Store} {change : ChangeEvent} (now : Nat)
    (h : ∀ stored, store.getRow change.table change.id = some stored →
      stored.rowMeta.dirty = true → ¬ stored.rowMeta.version < change.version) :
    store.receive change now = store ∨
      (store.receive change now = store.adopt change now ∧
        ∀ stored, store.getRow change.table change.id = some stored →
          stored.rowMeta.dirty = false) := by
  unfold Store.receive
  cases hrow : store.getRow change.table change.id with
  | none =>
      dsimp only
      split
      · exact Or.inr ⟨rfl, fun _ hnone => by cases hnone⟩
      · exact Or.inl rfl
  | some stored =>
      have hclean : stored.rowMeta.dirty = false →
          ∀ other, some stored = some other → other.rowMeta.dirty = false := by
        rintro hstored other ⟨rfl⟩
        exact hstored
      dsimp only
      split
      · exact Or.inl rfl
      · rename_i hnot
        split
        · cases hdirty : stored.rowMeta.dirty with
          | true => exact Or.inl rfl
          | false => exact Or.inr ⟨rfl, hclean hdirty⟩
        · rename_i hne
          cases hdirty : stored.rowMeta.dirty with
          | true =>
              have hnewer := lt_of_le_of_ne (not_lt.mp hnot) (Ne.symm hne)
              exact absurd hnewer (h stored hrow hdirty)
          | false => exact Or.inr ⟨rfl, hclean hdirty⟩

/-- The world once a change is adopted. -/
def World.adopt (world : World) (incoming : ChangeEvent) (now : Nat) : World :=
  { world with
    store := world.store.adopt incoming now
    adopted := world.adopted ++
      [(rowKey incoming.table incoming.id, incoming.version)] }

theorem run_adopt (incoming : ChangeEvent) (next : Prog session α) (inputs : List Input)
    (world : World) :
    (adopt incoming >>= fun _ => next).run inputs world =
      next.run inputs.tail.tail (world.adopt incoming (inputs.headD {}).now) := by
  simp only [adopt, act, Prog.call_bind, Prog.ret_bind]
  split
  · rename_i hdelete
    simp only [Prog.run, Prog.call_bind, Prog.ret_bind, World.adopt, Store.adopt,
      ChangeEvent.live, hdelete, if_true]
    rfl
  · rename_i hupsert
    simp only [Prog.run, Prog.call_bind, Prog.ret_bind, World.adopt, Store.adopt,
      ChangeEvent.live, hupsert, if_false]
    rfl

theorem run_retireEach (table id : String) (entries : List QueueEntry) (value : α)
    (inputs : List Input) (world : World) :
    (retireEach table id entries >>= fun _ => .ret value).run inputs world =
      (value, { world with store := Store.retireRow table id entries world.store }) := by
  induction entries generalizing inputs world with
  | nil => rfl
  | cons entry rest ih =>
      simp only [retireEach, act]
      split
      · rename_i hsame
        simp only [Prog.run, Prog.call_bind, Prog.ret_bind]
        rw [ih]
        simp [Store.retireRow, hsame, perform]
      · rename_i hsame
        rw [ih]
        simp [Store.retireRow, hsame]

/-- A decision carried out alone. -/
theorem run_applyDecision (config : ClientConfig) (incoming : ChangeEvent)
    (inputs : List Input) (world : World) :
    ∃ now, ((applyDecision config incoming
      (world.store.getRow incoming.table incoming.id)).run inputs world).2.store =
        world.store.receive incoming now ∧
      ((applyDecision config incoming
        (world.store.getRow incoming.table incoming.id)).run inputs world).2.lifecycle =
        world.lifecycle := by
  refine ⟨(inputs.headD {}).now, ?_⟩
  cases hstored : world.store.getRow incoming.table incoming.id with
  | none =>
      by_cases hop : incoming.op = .upsert
      · simp only [applyDecision, Option.map_none, reconcile, hop, if_true, adoptAs, run_adopt,
          Store.receive, hstored]
        exact ⟨rfl, rfl⟩
      · simp only [applyDecision, Option.map_none, reconcile, hop, if_false, Store.receive, hstored]
        exact ⟨rfl, rfl⟩
  | some stored =>
      rcases lt_trichotomy incoming.version stored.rowMeta.version with holder | hsame | hnewer
      · have hdecision : reconcile (some stored.localRow) incoming = .ignore .stale :=
          reconcile_older holder
        simp only [applyDecision, Option.map_some, hdecision, Store.receive, hstored, holder,
          if_true]
        exact ⟨rfl, rfl⟩
      · have hdecision : reconcile (some stored.localRow) incoming = .ignore .alreadyApplied :=
          reconcile_same hsame
        simp only [applyDecision, Option.map_some, hdecision, Store.receive, hstored, hsame,
          lt_irrefl, if_false, if_true]
        cases hdirty : stored.rowMeta.dirty with
        | true => exact ⟨rfl, rfl⟩
        | false =>
            simp only [Bool.not_false, if_true, adoptAs, run_adopt]
            exact ⟨rfl, rfl⟩
      · have hdecision : reconcile (some stored.localRow) incoming =
            if stored.rowMeta.dirty then .conflict else .apply := reconcile_newer hnewer
        have hwins : resolveConflict config.conflictResolution stored.localRow incoming = true :=
          resolveConflict_newer _ hnewer
        cases hdirty : stored.rowMeta.dirty with
        | true =>
            simp only [applyDecision, Option.map_some, hdecision, hdirty, if_true, hwins,
              adoptOverQueued, run_adopt, dropQueuedFor, act, Prog.call_bind, Prog.ret_bind,
              Prog.pure_eq, Prog.run, run_retireEach, Store.receive, hstored, hnewer.not_gt,
              hnewer.ne', if_false]
            exact ⟨rfl, rfl⟩
        | false =>
            simp only [applyDecision, Option.map_some, hdecision, hdirty, Bool.false_eq_true,
              if_false, adoptAs, run_adopt, Store.receive, hstored, hnewer.not_gt, hnewer.ne']
            exact ⟨rfl, rfl⟩

/-- The client lets a change for the table in. -/
def World.Admits (world : World) (config : ClientConfig) (table : String) : Prop :=
  config.allows table = true ∧ world.refusal .canReceiveChanges = none

theorem run_applyChange (config : ClientConfig) (incoming : ChangeEvent) (inputs : List Input)
    (world : World) (h : world.Admits config incoming.table) :
    ∃ now, ((applyChange config incoming).run inputs world).2.store =
        world.store.receive incoming now ∧
      ((applyChange config incoming).run inputs world).2.lifecycle = world.lifecycle := by
  obtain ⟨hallows, hadmits⟩ := h
  simp only [applyChange, requireCapability, act, Prog.call_bind, Prog.ret_bind, Prog.run,
    perform, hadmits, hallows, Bool.not_true, Bool.false_eq_true, if_false]
  exact run_applyDecision config incoming _
    { world with clock := observe world.clock incoming.version (inputs.tail.headD {}).now }

/-- A change that is not let in changes nothing in the store. -/
theorem run_applyChange_refused (config : ClientConfig) (incoming : ChangeEvent)
    (inputs : List Input) (world : World) (h : ¬ world.Admits config incoming.table) :
    ((applyChange config incoming).run inputs world).2 = world := by
  simp only [applyChange, requireCapability, act, Prog.call_bind, Prog.ret_bind, Prog.run, perform]
  cases hrefusal : world.refusal .canReceiveChanges with
  | some phase => rfl
  | none =>
      cases hallows : config.allows incoming.table with
      | true => exact absurd ⟨hallows, hrefusal⟩ h
      | false => rfl

/-- The payload an application reads: none without a live row. -/
def World.visible (world : World) (table id : String) : Option Json :=
  (world.store.getRow table id).bind (·.row)

def deliver (config : ClientConfig) (world : World) (delivery : ChangeEvent × List Input) :
    World :=
  ((applyChange config delivery.1).run delivery.2 world).2

/-- The row is the kept change's, clean; the client lets its changes in. -/
structure Shows (config : ClientConfig) (table id : String) (kept : Option ChangeEvent)
    (world : World) : Prop where
  admits : world.Admits config table
  absent : kept = none → world.store.getRow table id = none
  stored : ∀ change, kept = some change → ∃ stored,
    world.store.getRow table id = some stored ∧ stored.row = change.live ∧
      stored.rowMeta.version = change.version ∧ stored.rowMeta.dirty = false

def creates (change : ChangeEvent) : Bool := change.op == .upsert

theorem Shows.adopted {config : ClientConfig} {kept : Option ChangeEvent}
    {change : ChangeEvent} {world after : World}
    (h : Shows config change.table change.id kept world) (now : Nat)
    (hstore : after.store = world.store.adopt change now)
    (hlifecycle : after.lifecycle = world.lifecycle) :
    Shows config change.table change.id (some change) after := by
  refine ⟨⟨h.admits.1, ?_⟩, fun hnone => (Option.some_ne_none _ hnone).elim, ?_⟩
  · rw [World.refusal, hlifecycle]
    exact h.admits.2
  · intro other hother
    obtain rfl := Option.some.inj hother
    rw [hstore]
    exact ⟨_, Store.getRow_setRow_self _ _ _ _, rfl, rfl, rfl⟩

/-- A delivery that leaves the store as it was leaves what it shows. -/
theorem Shows.unchanged {config : ClientConfig} {kept : Option ChangeEvent}
    {change : ChangeEvent} {world after : World}
    (h : Shows config change.table change.id kept world) (hstore : after.store = world.store)
    (hlifecycle : after.lifecycle = world.lifecycle) :
    Shows config change.table change.id kept after := by
  refine ⟨⟨h.admits.1, ?_⟩, ?_, ?_⟩
  · rw [World.refusal, hlifecycle]
    exact h.admits.2
  · rw [hstore]
    exact h.absent
  · rw [hstore]
    exact h.stored

/-- One delivery keeps the newest, as the register does. -/
theorem Shows.deliver {config : ClientConfig} {kept : Option ChangeEvent}
    {change : ChangeEvent} {world : World} (inputs : List Input)
    (h : Shows config change.table change.id kept world) :
    Shows config change.table change.id
      (Newest.keep (·.version) creates kept change) (Js.deliver config world (change, inputs)) := by
  obtain ⟨now, hstore, hlifecycle⟩ := run_applyChange config change inputs world h.admits
  cases kept with
  | none =>
      have habsent := h.absent rfl
      by_cases hop : change.op = .upsert
      · have hkeep : Newest.keep (·.version) creates none change = some change := by
          simp [Newest.keep, creates, hop]
        rw [hkeep]
        refine h.adopted now ?_ hlifecycle
        rw [Js.deliver, hstore]
        simp [Store.receive, habsent, hop]
      · have hkeep : Newest.keep (·.version) creates none change = none := by
          simp [Newest.keep, creates, hop]
        rw [hkeep]
        refine h.unchanged ?_ hlifecycle
        rw [Js.deliver, hstore]
        simp [Store.receive, habsent, hop]
  | some current =>
      obtain ⟨stored, hstored, -, hversion, hclean⟩ := h.stored current rfl
      by_cases hle : current.version ≤ change.version
      · have hkeep : Newest.keep (·.version) creates (some current) change = some change := by
          simp [Newest.keep, hle]
        rw [hkeep]
        refine h.adopted now ?_ hlifecycle
        have hnot : ¬ change.version < stored.rowMeta.version := by
          rw [hversion]
          exact not_lt.mpr hle
        rw [Js.deliver, hstore]
        simp [Store.receive, hstored, hnot, hclean]
      · have hkeep : Newest.keep (·.version) creates (some current) change = some current := by
          simp [Newest.keep, hle]
        rw [hkeep]
        refine h.unchanged ?_ hlifecycle
        have holder : change.version < stored.rowMeta.version := by
          rw [hversion]
          exact not_le.mp hle
        rw [Js.deliver, hstore]
        simp [Store.receive, hstored, holder]

/-- A sequence of deliveries, one after another. -/
def deliverAll (config : ClientConfig) (world : World)
    (deliveries : List (ChangeEvent × List Input)) : World :=
  Run.final (deliver config) world deliveries

/-- After a sequence of deliveries for one row the row is that of the register. -/
theorem Shows.deliverAll {config : ClientConfig} {table id : String}
    {kept : Option ChangeEvent} {world : World}
    (deliveries : List (ChangeEvent × List Input))
    (hrow : ∀ delivery ∈ deliveries, delivery.1.table = table ∧ delivery.1.id = id)
    (h : Shows config table id kept world) :
    Shows config table id
      ((deliveries.map Prod.fst).foldl (Newest.keep (·.version) creates) kept)
      (Js.deliverAll config world deliveries) := by
  induction deliveries generalizing kept world with
  | nil => exact h
  | cons delivery deliveries ih =>
      obtain ⟨change, inputs⟩ := delivery
      obtain ⟨rfl, rfl⟩ := hrow (change, inputs) List.mem_cons_self
      exact ih (fun other hother => hrow other (List.mem_cons_of_mem _ hother)) (h.deliver inputs)

theorem Shows.visible {config : ClientConfig} {table id : String} {kept : Option ChangeEvent}
    {world : World} (h : Shows config table id kept world) :
    world.visible table id = kept.bind ChangeEvent.live := by
  cases kept with
  | none => simp [World.visible, h.absent rfl]
  | some change =>
      obtain ⟨stored, hstored, hrow, -, -⟩ := h.stored change rfl
      simp [World.visible, hstored, hrow]

/-- A replica that lets changes for the row in and does not have it yet. -/
structure Fresh (config : ClientConfig) (table id : String) (world : World) : Prop where
  admits : world.Admits config table
  absent : world.store.getRow table id = none

theorem Fresh.visible_deliverAll {config : ClientConfig} {table id : String} {world : World}
    (h : Fresh config table id world) (deliveries : List (ChangeEvent × List Input))
    (hrow : ∀ delivery ∈ deliveries, delivery.1.table = table ∧ delivery.1.id = id) :
    (deliverAll config world deliveries).visible table id =
      (Newest.kept (·.version) creates (deliveries.map Prod.fst)).bind ChangeEvent.live := by
  have hshows : Shows config table id none world :=
    ⟨h.admits, fun _ => h.absent, fun _ hnone => (Option.some_ne_none _ hnone.symm).elim⟩
  exact (hshows.deliverAll deliveries hrow).visible

/-- A sequence over a set of changes: each at least once, in any order. -/
def DeliversAll (changes : List ChangeEvent) (deliveries : List (ChangeEvent × List Input)) :
    Prop :=
  Newest.Covers changes (deliveries.map Prod.fst)

/-- No delete is newer than the newest upsert, unless that upsert shows nothing. -/
def NewestUpsertLast (changes : List ChangeEvent) : Prop :=
  ∀ top ∈ changes, top.op = .upsert →
    (∀ change ∈ changes, change.op = .upsert → change.version ≤ top.version) →
    top.row = none ∨ ∀ change ∈ changes, change.version ≤ top.version

/-- Any two sequences of deliveries over a set of changes to one row leave the
same visible row in replicas that start without it, exactly when no delete is
newer than the newest upsert. -/
theorem delivery_order_independent_iff (config : ClientConfig) (table id : String)
    (changes : List ChangeEvent)
    (hrow : ∀ change ∈ changes, change.table = table ∧ change.id = id)
    (hdistinct : (changes.map (·.version)).Nodup) (hallows : config.allows table = true) :
    (∀ first second a b, DeliversAll changes first → DeliversAll changes second →
      Fresh config table id a → Fresh config table id b →
      (deliverAll config a first).visible table id =
        (deliverAll config b second).visible table id) ↔
    NewestUpsertLast changes := by
  have hrows : ∀ deliveries, DeliversAll changes deliveries →
      ∀ delivery ∈ deliveries, delivery.1.table = table ∧ delivery.1.id = id := by
    intro deliveries hcovers delivery hdelivery
    exact hrow _ ((hcovers delivery.1).mp (List.mem_map_of_mem hdelivery))
  have hinj : ∀ a ∈ changes, ∀ b ∈ changes, a.version = b.version → a = b :=
    fun a ha b hb => List.inj_on_of_nodup_map hdistinct ha hb
  have hsilent : ∀ change ∈ changes, creates change = false → change.live = none := by
    intro change _ hcreates
    cases hop : change.op with
    | upsert => simp [creates, hop] at hcreates
    | delete => simp [ChangeEvent.live, hop]
  have hregister := Newest.arrivals_agree_iff (·.version) creates ChangeEvent.live hinj hsilent
  have hlast : NewestUpsertLast changes ↔ ∀ top ∈ changes, creates top = true →
      (∀ change ∈ changes, creates change = true → change.version ≤ top.version) →
      top.live = none ∨ ∀ change ∈ changes, change.version ≤ top.version := by
    simp only [NewestUpsertLast, creates, beq_iff_eq]
    refine forall₃_congr fun top _ hop => ?_
    simp [ChangeEvent.live, hop]
  rw [hlast, ← hregister]
  constructor
  · intro hagree first second hfirst hsecond
    have hfresh : Fresh config table id { clock := Clock.fresh "" } := ⟨⟨hallows, rfl⟩, rfl⟩
    have hmap : ∀ arrivals : List ChangeEvent,
        (arrivals.map fun change => (change, ([] : List Input))).map Prod.fst = arrivals := by
      intro arrivals
      simp [Function.comp_def]
    have hequal := hagree (first.map fun change => (change, []))
      (second.map fun change => (change, [])) _ _ (by rwa [DeliversAll, hmap])
      (by rwa [DeliversAll, hmap]) hfresh hfresh
    rw [hfresh.visible_deliverAll _ (hrows _ (by rwa [DeliversAll, hmap])),
      hfresh.visible_deliverAll _ (hrows _ (by rwa [DeliversAll, hmap])), hmap, hmap] at hequal
    exact hequal
  · intro hagree first second a b hfirst hsecond ha hb
    rw [ha.visible_deliverAll _ (hrows _ hfirst), hb.visible_deliverAll _ (hrows _ hsecond)]
    exact hagree _ _ hfirst hsecond

/-- A row is written, then deleted. -/
def written : ChangeEvent :=
  { table := "todos", op := .upsert, id := "a",
    version := { wallMs := 1, counter := 0, actor := "peer" }, row := some (.str "buy milk"),
    writeKey := none }

def deleted : ChangeEvent :=
  { written with
    op := .delete, version := { wallMs := 2, counter := 0, actor := "peer" }, row := none }

def emptyReplica : World := { clock := Clock.fresh "device" }

theorem written_then_deleted_iff :
    (∀ first second a b, DeliversAll [written, deleted] first →
      DeliversAll [written, deleted] second →
      Fresh {} "todos" "a" a → Fresh {} "todos" "a" b →
      (deliverAll {} a first).visible "todos" "a" =
        (deliverAll {} b second).visible "todos" "a") ↔
    NewestUpsertLast [written, deleted] :=
  delivery_order_independent_iff {} "todos" "a" [written, deleted]
    (by simp [written, deleted]) (by decide) rfl

/-- A delete that arrives first leaves no tombstone, so the older upsert behind it
comes back to life. -/
theorem early_delete_leaves_no_tombstone :
    let inOrder := [(written, []), (deleted, [])]
    let deleteFirst := [(deleted, []), (written, [])]
    DeliversAll [written, deleted] inOrder ∧ DeliversAll [written, deleted] deleteFirst ∧
      Fresh {} "todos" "a" emptyReplica ∧
      (deliverAll {} emptyReplica inOrder).visible "todos" "a" = none ∧
      (deliverAll {} emptyReplica deleteFirst).visible "todos" "a" = some (.str "buy milk") := by
  refine ⟨fun change => ?_, fun change => ?_, ⟨⟨rfl, rfl⟩, rfl⟩, rfl, rfl⟩
  · exact Iff.rfl
  · simp [or_comm]

end ZedSync.Js
