import ZedSync.Js.Sequential

/-!
Convergence at rest. Whatever a client did, failed to do and was told in any order,
once nothing is queued every row it has is clean, at a version of that row in the
server's log; replaying the log in order then leaves the server's state.
-/

namespace ZedSync.Js

open Async

/-- The committed changes, in order: versions strictly increase along each row. -/
structure ServerLog (log : List ChangeEvent) : Prop where
  tables : ∀ change ∈ log, Separable change.table
  increasing : log.Pairwise fun earlier later =>
    earlier.table = later.table → earlier.id = later.id → earlier.version < later.version

/-- An ack carries the version of a change the log has for the row. -/
def LoggedFor (log : List ChangeEvent) (change : ChangeEvent) (committedVersion : Option Hlc) :
    Prop :=
  ∃ logged ∈ log, logged.table = change.table ∧ logged.id = change.id ∧
    committedVersion = some logged.version

/-- The rules of a client of the server: what it is told is in the log. -/
def logRules (log : List ChangeEvent) : Rules where
  edits := fun _ => True
  delivers := fun change => change ∈ log
  answers := fun _ => LoggedFor log
  serves := fun _ => LoggedFor log

/-- The changes a call is delivered. -/
def Call.delivered : Call → List ChangeEvent
  | .applyChange incoming => [incoming]
  | .hydrate changes => changes
  | .write _ _ _ _ | .flushQueue _ | .newClient _ => []

/-- A call told only of the log, whose acks are of the log, and that keeps the queue
below its bound. -/
def LoggedCall (config : ClientConfig) (log : List ChangeEvent) (world : World)
    (event : CallEvent) : Prop :=
  (∀ change ∈ event.1.delivered, change ∈ log) ∧
    (event.1.program config).Heeds (Permits fun _ => LoggedFor log) event.2 world

/-- The changes of one row, in order. -/
def rowLog (log : List ChangeEvent) (table id : String) : List ChangeEvent :=
  log.filter fun change => change.table == table && change.id == id

theorem mem_rowLog {log : List ChangeEvent} {table id : String} {change : ChangeEvent} :
    change ∈ rowLog log table id ↔ change ∈ log ∧ change.table = table ∧ change.id = id := by
  simp [rowLog]

theorem ServerLog.rowLog_increasing {log : List ChangeEvent} (h : ServerLog log)
    (table id : String) : (rowLog log table id).Pairwise (·.version < ·.version) := by
  have hrow : (rowLog log table id).Pairwise fun earlier later =>
      earlier.table = later.table → earlier.id = later.id → earlier.version < later.version :=
    h.increasing.sublist List.filter_sublist
  refine hrow.imp_of_mem fun hearlier hlater hlt => ?_
  obtain ⟨-, htable, hid⟩ := mem_rowLog.mp hearlier
  obtain ⟨-, htable', hid'⟩ := mem_rowLog.mp hlater
  exact hlt (htable.trans htable'.symm) (hid.trans hid'.symm)

namespace Store

section Logged

variable {log : List ChangeEvent} {store after : Store} {table id : String}

/-- A dirty row has a write queued, and a clean one a version of its row in the log. -/
structure Logged (log : List ChangeEvent) (store : Store) : Prop where
  dirty : ∀ key stored, store.rows key = some stored → stored.rowMeta.dirty = true →
    ∃ entry ∈ store.queue, rowKey entry.table entry.id = key
  clean : ∀ key stored, store.rows key = some stored → stored.rowMeta.dirty = false →
    ∃ change ∈ log, rowKey change.table change.id = key ∧
      stored.rowMeta.version = change.version

/-- A step that stores a logged version in one row, clean, and takes away slots of
that row only. -/
structure AdoptsLogged (log : List ChangeEvent) (store after : Store) (table id : String) :
    Prop where
  queue : ∀ entry ∈ store.queue, entry.sameRow table id = false → entry ∈ after.queue
  others : ∀ key, key ≠ rowKey table id → after.rows key = store.rows key
  row : ∀ stored, after.getRow table id = some stored → stored.rowMeta.dirty = false ∧
    ∃ change ∈ log, change.table = table ∧ change.id = id ∧
      stored.rowMeta.version = change.version

theorem Logged.adopts (h : store.Logged log) (hadopts : AdoptsLogged log store after table id) :
    after.Logged log := by
  refine ⟨fun key stored hstored hdirty => ?_, fun key stored hstored hclean => ?_⟩
  · have hkey : key ≠ rowKey table id := by
      rintro rfl
      rw [(hadopts.row stored hstored).1] at hdirty
      cases hdirty
    rw [hadopts.others key hkey] at hstored
    obtain ⟨entry, hentry, hsame⟩ := h.dirty key stored hstored hdirty
    refine ⟨entry, hadopts.queue entry hentry (not_sameRow_iff.mpr ?_), hsame⟩
    rintro ⟨rfl, rfl⟩
    exact hkey hsame.symm
  · by_cases hkey : key = rowKey table id
    · subst hkey
      obtain ⟨-, change, hchange, rfl, rfl, hversion⟩ := hadopts.row stored hstored
      exact ⟨change, hchange, rfl, hversion⟩
    · rw [hadopts.others key hkey] at hstored
      exact h.clean key stored hstored hclean

theorem Empty.logged (h : store.Empty) : store.Logged log := by
  refine ⟨fun key stored hstored _ => ?_, fun key stored hstored _ => ?_⟩
  · rw [h.rows key] at hstored
    cases hstored
  · rw [h.rows key] at hstored
    cases hstored

/-- A clean put of a logged version. -/
theorem adoptsLogged_setRow {stored : StoredRow} {change : ChangeEvent}
    (hclean : stored.rowMeta.dirty = false) (hchange : change ∈ log)
    (hversion : stored.rowMeta.version = change.version)
    (hqueue : ∀ entry ∈ store.queue,
      entry.sameRow change.table change.id = false → entry ∈ after.queue)
    (hrows : after.rows = (store.setRow change.table change.id stored).rows) :
    AdoptsLogged log store after change.table change.id := by
  refine ⟨hqueue, fun key hkey => ?_, fun other hother => ?_⟩
  · rw [hrows]
    exact setRow_others stored key hkey
  · rw [getRow, hrows] at hother
    obtain rfl := Option.some.inj ((getRow_setRow_self _ _ _ _).symm.trans hother)
    exact ⟨hclean, change, hchange, rfl, rfl, hversion⟩

theorem Logged.edited (h : store.Logged log) (hslots : store.Slots) (write : QueuedWrite)
    (syncedAtMs : Option Nat)
    (hroom : ((store.editRow write syncedAtMs).enqueue write).1.2 = none) :
    ((store.editRow write syncedAtMs).enqueue write).2.Logged log := by
  have hedited : (store.editRow write syncedAtMs).Slots := hslots.of_same rfl rfl
  obtain ⟨-, htakes⟩ := hedited.enqueue hroom
  have hrows := enqueue_rows (store.editRow write syncedAtMs) write
  refine ⟨fun key stored hstored hdirty => ?_, fun key stored hstored hclean => ?_⟩
  · by_cases hkey : key = rowKey write.table write.id
    · exact ⟨_, (htakes _).mpr (Or.inl rfl), hkey.symm⟩
    · rw [hrows, editRow, setRow_others _ _ hkey] at hstored
      obtain ⟨entry, hentry, hsame⟩ := h.dirty key stored hstored hdirty
      refine ⟨entry, (htakes entry).mpr (Or.inr ⟨hentry, not_sameRow_iff.mpr ?_⟩), hsame⟩
      rintro ⟨htable, hid⟩
      rw [htable, hid] at hsame
      exact hkey hsame.symm
  · have hkey : key ≠ rowKey write.table write.id := by
      rintro rfl
      rw [hrows] at hstored
      obtain rfl := Option.some.inj ((getRow_setRow_self _ _ _ _).symm.trans hstored)
      cases hclean
    rw [hrows, editRow, setRow_others _ _ hkey] at hstored
    exact h.clean key stored hstored hclean

theorem Logged.received (h : store.Logged log) (hslots : store.Slots) {change : ChangeEvent}
    (hchange : change ∈ log) (now : Nat) : (store.receive change now).Logged log := by
  rcases hslots.receive change now with hsame | ⟨hadopted, -⟩ | ⟨hrows, -, hqueue⟩
  · rw [hsame]
    exact h
  · rw [hadopted]
    exact h.adopts (adoptsLogged_setRow rfl hchange rfl (fun _ hentry _ => hentry) rfl)
  · exact h.adopts (adoptsLogged_setRow rfl hchange rfl
      (fun entry hentry hrow => (hqueue entry).mpr ⟨hentry, hrow⟩) hrows)

theorem Logged.settled (h : store.Logged log) (hslots : store.Slots) {entry : QueueEntry}
    (hentry : entry ∈ store.queue) {committedVersion : Option Hlc}
    (hlogged : LoggedFor log entry.change committedVersion) (now : Nat) :
    (store.settleAck (.ofEntry entry committedVersion now)).2.Logged log := by
  rcases hslots.settleAck hentry committedVersion now with hsame | ⟨stored, -, -, hqueue, hrows⟩
  · rw [hsame]
    exact h
  · obtain ⟨change, hchange, htable, hid, rfl⟩ := hlogged
    have htable : change.table = entry.table := htable
    have hid : change.id = entry.id := hid
    rw [← htable, ← hid] at hrows
    refine h.adopts (adoptsLogged_setRow rfl hchange rfl (fun other hother hrow => ?_) hrows)
    refine (hqueue other).mpr ⟨hother, ?_⟩
    rintro rfl
    exact not_sameRow_iff.mp hrow ⟨htable.symm, hid.symm⟩

theorem Logged.served (h : store.Logged log) {change : ChangeEvent}
    {committedVersion : Option Hlc} (hlogged : LoggedFor log change committedVersion)
    (now : Nat) :
    (Effect.apply (.served change committedVersion now) store).Logged log := by
  obtain ⟨logged, hmem, htable, hid, rfl⟩ := hlogged
  rw [Effect.apply, ← htable, ← hid]
  exact h.adopts (adoptsLogged_setRow rfl hmem rfl (fun _ hentry _ => hentry) rfl)

end Logged

end Store

theorem logRules_keep (log : List ChangeEvent) : (logRules log).Keeps (Store.Logged log) := by
  intro effect store hslots hlogged hallows
  cases effect with
  | edited write syncedAtMs => exact hlogged.edited hslots write syncedAtMs hallows.2
  | received change now => exact hlogged.received hslots hallows now
  | settled entry committedVersion now =>
      exact hlogged.settled hslots hallows.1 hallows.2 now
  | served change committedVersion now => exact hlogged.served hallows.2 now

theorem logRules_covers {log : List ChangeEvent} {call : Call}
    (h : ∀ change ∈ call.delivered, change ∈ log) : (logRules log).Covers call := by
  cases call with
  | applyChange incoming => exact h incoming List.mem_cons_self
  | hydrate changes => exact h
  | write table id row options => trivial
  | flushQueue policy => trivial
  | newClient newProcess => trivial

theorem logRules_answering (log : List ChangeEvent) (servesFirst : Bool) :
    (logRules log).answering servesFirst = fun _ => LoggedFor log := by
  cases servesFirst <;> rfl

/-- After any run the client has only rows that wait in the queue or are the log's. -/
theorem run_logged {config : ClientConfig} {log : List ChangeEvent} {start : World}
    {events : List CallEvent} (hempty : start.store.Empty)
    (hrun : Run.Along (callStep config) (LoggedCall config log) start events) :
    (Run.final (callStep config) start events).store.Logged log := by
  have hrules := hrun.mono fun world event hevent =>
    (⟨logRules_covers hevent.1, by rw [logRules_answering]; exact hevent.2⟩ :
      (logRules log).Covers event.1 ∧ (event.1.program config).Heeds
        (Permits ((logRules log).answering (event.1.servesFirst config))) event.2 world)
  exact (Rules.run_keeps config (logRules_keep log) hempty.slots hempty.logged hrules).2

section Replay

variable {config : ClientConfig} {table id : String} {kept : Option ChangeEvent} {world : World}

/-- A delivery leaves the other rows as they are. -/
theorem Store.receive_others (store : Store) (change : ChangeEvent) (now : Nat) {key : String}
    (hkey : key ≠ rowKey change.table change.id) :
    (store.receive change now).rows key = store.rows key := by
  have hadopt : (store.adopt change now).rows key = store.rows key :=
    Store.setRow_others _ key hkey
  unfold Store.receive
  split
  · split
    · exact hadopt
    · rfl
  · split
    · rfl
    · split
      · split
        · rfl
        · exact hadopt
      · split
        · rw [Store.retireRow_rows]
          exact hadopt
        · exact hadopt

/-- A decision that is carried out never throws. -/
theorem applyDecision_ok {C : Action → Input → World → Prop} (incoming : ChangeEvent)
    (existing : Option StoredRow) (world : World) :
    (applyDecision config incoming existing).Ensures C
      (fun reply _ => ∃ outcome, reply = .ok outcome) world := by
  have hany : ∀ {β : Type} (program : Prog session β) (world : World),
      program.Ensures C (fun _ _ => True) world :=
    fun _ _ => Prog.Ensures.of_runs fun _ => trivial
  have hadoptAs : ∀ outcome, (adoptAs incoming outcome).Ensures C
      (fun reply _ => ∃ outcome, reply = .ok outcome) world :=
    fun outcome => (hany _ _).bind fun _ _ _ => ⟨outcome, rfl⟩
  unfold applyDecision
  split
  · exact hadoptAs _
  · split
    · refine (hany _ _).bind fun _ later _ => ?_
      exact (hany _ _).bind fun _ _ _ => ⟨_, rfl⟩
    · exact ⟨_, rfl⟩
  · split
    · exact hadoptAs _
    · exact ⟨_, rfl⟩
  · exact ⟨_, rfl⟩

/-- The row after the changes of a log that are its own. -/
def keepRow (table id : String) (kept : Option ChangeEvent) (changes : List ChangeEvent) :
    Option ChangeEvent :=
  (rowLog changes table id).foldl (Newest.keep (·.version) creates) kept

theorem keepRow_cons (table id : String) (kept : Option ChangeEvent) (change : ChangeEvent)
    (rest : List ChangeEvent) : keepRow table id kept (change :: rest) =
      keepRow table id (keepRow table id kept [change]) rest := by
  rw [keepRow, keepRow, keepRow, ← List.foldl_append, rowLog, rowLog, rowLog,
    ← List.filter_append, List.singleton_append]

/-- A delivery of another row shows nothing in this one. -/
theorem Shows.elsewhere {change : ChangeEvent} (inputs : List Input)
    (hadmits : world.Admits config change.table) (h : Shows config table id kept world)
    (hkey : rowKey table id ≠ rowKey change.table change.id) :
    Shows config table id kept (Js.deliver config world (change, inputs)) := by
  obtain ⟨now, hstore, hlifecycle⟩ := run_applyChange config change inputs world hadmits
  have hrow : (Js.deliver config world (change, inputs)).store.getRow table id =
      world.store.getRow table id := by
    rw [Js.deliver, hstore]
    exact Store.receive_others world.store change now hkey
  refine ⟨⟨h.admits.1, ?_⟩, ?_, ?_⟩
  · rw [World.refusal, Js.deliver, hlifecycle]
    exact h.admits.2
  · rw [hrow]
    exact h.absent
  · rw [hrow]
    exact h.stored

/-- Any delivery moves the row as the register of its own changes. -/
theorem Shows.deliverAny {change : ChangeEvent} (inputs : List Input)
    (htable : Separable table) (htable' : Separable change.table)
    (hadmits : world.Admits config change.table) (h : Shows config table id kept world) :
    Shows config table id (keepRow table id kept [change])
      (Js.deliver config world (change, inputs)) := by
  by_cases hrow : change.table = table ∧ change.id = id
  · obtain ⟨rfl, rfl⟩ := hrow
    have hkeep : keepRow change.table change.id kept [change] =
        Newest.keep (·.version) creates kept change := by
      simp [keepRow, rowLog]
    rw [hkeep]
    exact h.deliver inputs
  · have hkeep : keepRow table id kept [change] = kept := by
      simp [keepRow, rowLog, hrow]
    rw [hkeep]
    refine h.elsewhere inputs hadmits fun hkey => ?_
    obtain ⟨rfl, rfl⟩ := rowKey_inj htable htable' hkey
    exact hrow ⟨rfl, rfl⟩

/-- A sequence of deliveries moves the row as the register of its own changes. -/
theorem Shows.deliverEach (deliveries : List (ChangeEvent × List Input))
    (htable : Separable table) (hseparable : ∀ delivery ∈ deliveries, Separable delivery.1.table)
    (h : Shows config table id kept world) :
    Shows config table id (keepRow table id kept (deliveries.map Prod.fst))
      (Js.deliverAll config world deliveries) := by
  induction deliveries generalizing kept world with
  | nil => exact h
  | cons delivery deliveries ih =>
      obtain ⟨change, inputs⟩ := delivery
      have hrest := fun later hlater => hseparable later (List.mem_cons_of_mem _ hlater)
      rw [List.map_cons, keepRow_cons]
      refine ih hrest ?_
      by_cases hadmits : world.Admits config change.table
      · exact h.deliverAny inputs htable (hseparable (change, inputs) List.mem_cons_self) hadmits
      · have hother : change.table ≠ table := by
          rintro rfl
          exact hadmits h.admits
        have hkeep : keepRow table id kept [change] = kept := by
          simp [keepRow, rowLog, hother]
        have hsame : Js.deliver config world (change, inputs) = world :=
          run_applyChange_refused config change inputs world hadmits
        rw [hkeep, hsame]
        exact h

/-- A row of a table the client does not let in stays as it is. -/
theorem getRow_deliverAll (deliveries : List (ChangeEvent × List Input))
    (htable : Separable table) (hseparable : ∀ delivery ∈ deliveries, Separable delivery.1.table)
    (hrefused : ¬ world.Admits config table) :
    (Js.deliverAll config world deliveries).store.getRow table id =
      world.store.getRow table id := by
  induction deliveries generalizing world with
  | nil => rfl
  | cons delivery deliveries ih =>
      obtain ⟨change, inputs⟩ := delivery
      have hrest := fun later hlater => hseparable later (List.mem_cons_of_mem _ hlater)
      by_cases hadmits : world.Admits config change.table
      · obtain ⟨now, hstore, hlifecycle⟩ := run_applyChange config change inputs world hadmits
        have hother : rowKey table id ≠ rowKey change.table change.id := by
          intro hkey
          obtain ⟨rfl, -⟩ :=
            rowKey_inj htable (hseparable (change, inputs) List.mem_cons_self) hkey
          exact hrefused hadmits
        have hstill : ¬ (Js.deliver config world (change, inputs)).Admits config table := by
          rintro ⟨hallows, hrefusal⟩
          rw [World.refusal, Js.deliver, hlifecycle] at hrefusal
          exact hrefused ⟨hallows, hrefusal⟩
        have hrow : (Js.deliver config world (change, inputs)).store.getRow table id =
            world.store.getRow table id := by
          rw [Js.deliver, hstore]
          exact Store.receive_others world.store change now hother
        exact (ih hrest hstill).trans hrow
      · have hsame : Js.deliver config world (change, inputs) = world :=
          run_applyChange_refused config change inputs world hadmits
        have hlater := ih hrest hrefused
        rw [← hsame] at hlater
        exact hlater.trans (by rw [hsame])

/-- A change the client lets in is answered, and moves the row shown. -/
theorem applyChange_shows (change : ChangeEvent) (htable : Separable table)
    (htable' : Separable change.table) (hadmits : world.Admits config change.table)
    (h : Shows config table id kept world) :
    (applyChange config change).Ensures (fun _ _ _ => True)
      (fun reply later => (∃ outcome, reply = .ok outcome) ∧
        Shows config table id (keepRow table id kept [change]) later) world := by
  refine Prog.Ensures.and ?_ (Prog.Ensures.of_runs fun inputs =>
    h.deliverAny inputs htable htable' hadmits)
  obtain ⟨hallows, hrefusal⟩ := hadmits
  intro _ _
  simp only [perform, hrefusal, hallows, Bool.not_true, Bool.false_eq_true, if_false]
  intro _ _ _ _
  exact applyDecision_ok change _ _

/-- A whole replay is answered, and the row shows what the register keeps. -/
theorem hydrate_shows (htables : config.tables = none) (htable : Separable table)
    (changes : List ChangeEvent) (hseparable : ∀ change ∈ changes, Separable change.table)
    (h : Shows config table id kept world) :
    (hydrate config changes).Ensures (fun _ _ _ => True)
      (fun reply later => reply = .ok () ∧
        Shows config table id (keepRow table id kept changes) later) world := by
  induction changes generalizing kept world with
  | nil => exact ⟨rfl, h⟩
  | cons change rest ih =>
      have hallows : config.allows change.table = true := by
        rw [ClientConfig.allows, htables]
        rfl
      have hadmits : world.Admits config change.table := ⟨hallows, h.admits.2⟩
      have hfirst := applyChange_shows change htable (hseparable change List.mem_cons_self)
        hadmits h
      unfold hydrate
      refine hfirst.bind fun reply later hreplied => ?_
      obtain ⟨⟨outcome, rfl⟩, hshows⟩ := hreplied
      have hrest := ih (fun other hother => hseparable other (List.mem_cons_of_mem _ hother)) hshows
      refine hrest.mono fun _ _ hlater => ⟨hlater.1, ?_⟩
      rw [keepRow_cons]
      exact hlater.2

end Replay

/-- A row of a client at rest, as the register: absent, or some payload at a version
the log has for it. -/
theorem Store.Logged.shows {config : ClientConfig} {log : List ChangeEvent} {world : World}
    (h : world.store.Logged log) (hlog : ServerLog log) (hquiet : world.store.queue = [])
    {table id : String} (htable : Separable table) (hadmits : world.Admits config table) :
    ∃ kept, Shows config table id kept world ∧
      ∀ change, kept = some change → ∃ logged ∈ rowLog log table id,
        logged.version = change.version := by
  cases hrow : world.store.getRow table id with
  | none =>
      exact ⟨none, ⟨hadmits, fun _ => hrow, nofun⟩, nofun⟩
  | some stored =>
      have hclean : stored.rowMeta.dirty = false := by
        by_contra hdirty
        obtain ⟨entry, hentry, -⟩ := h.dirty _ stored hrow (by simpa using hdirty)
        rw [hquiet] at hentry
        cases hentry
      obtain ⟨logged, hlogged, hkey, hversion⟩ := h.clean _ stored hrow hclean
      obtain ⟨hsame, hsame'⟩ := rowKey_inj (hlog.tables logged hlogged) htable hkey
      let payload : ChangeEvent :=
        { table := table, op := .upsert, id := id, version := stored.rowMeta.version
          row := stored.row, writeKey := none }
      refine ⟨some payload, ⟨hadmits, nofun, fun change hchange => ?_⟩, fun change hchange => ?_⟩
      · obtain rfl := Option.some.inj hchange
        exact ⟨stored, hrow, rfl, rfl, hclean⟩
      · obtain rfl := Option.some.inj hchange
        exact ⟨logged, mem_rowLog.mpr ⟨hlogged, hsame, hsame'⟩, hversion.symm⟩

/-- The row is the server's after `last`, its last change: the payload and version of an
upsert, and nothing live after a delete. -/
structure IsServers (last : ChangeEvent) (world : World) (table id : String) : Prop where
  upserted : last.op = .upsert → ∃ stored, world.store.getRow table id = some stored ∧
    stored.row = last.row ∧ stored.rowMeta.version = last.version ∧
    stored.rowMeta.dirty = false
  deleted : last.op = .delete → world.visible table id = none

theorem Shows.isServers {config : ClientConfig} {table id : String} {kept : Option ChangeEvent}
    {last : ChangeEvent} {world : World} (h : Shows config table id kept world)
    (hkept : kept = some last ∨ kept = none ∧ creates last = false) :
    IsServers last world table id := by
  rcases hkept with rfl | ⟨rfl, hcreates⟩
  · refine ⟨fun hop => ?_, fun hop => ?_⟩
    · obtain ⟨stored, hstored, hrow, hversion, hclean⟩ := h.stored last rfl
      have hlive : last.live = last.row := by simp [ChangeEvent.live, hop]
      exact ⟨stored, hstored, hrow.trans hlive, hversion, hclean⟩
    · rw [h.visible]
      simp [ChangeEvent.live, hop]
  · refine ⟨fun hop => ?_, fun _ => h.visible⟩
    simp [creates, hop] at hcreates

/-- Take any sequential run without an allowlist against a server log: writes in any
mode, failures, acks of logged versions and deliveries of logged changes in any
order, the queue below its bound. If nothing is queued at its end, replaying the log
leaves every row of the log as the server has it. -/
theorem replay_converges (config : ClientConfig) (log : List ChangeEvent) (start : World)
    (events : List CallEvent) (inputs : List Input) (hlog : ServerLog log)
    (htables : config.tables = none) (hempty : start.store.Empty)
    (hrun : Run.Along (callStep config) (LoggedCall config log) start events)
    (hquiet : (Run.final (callStep config) start events).store.queue = [])
    (hreceives : (Run.final (callStep config) start events).refusal .canReceiveChanges = none) :
    let replay := (hydrate config log).run inputs (Run.final (callStep config) start events)
    replay.1 = .ok () ∧
      ∀ table id last, (rowLog log table id).getLast? = some last →
        IsServers last replay.2 table id := by
  have hlogged := run_logged hempty hrun
  have hadmits : ∀ table,
      (Run.final (callStep config) start events).Admits config table := fun table =>
    ⟨by rw [ClientConfig.allows, htables]; rfl, hreceives⟩
  have hreplay : ∀ table id, Separable table → ∃ kept,
      (∀ change, kept = some change → ∃ logged ∈ rowLog log table id,
        logged.version = change.version) ∧
      ((hydrate config log).run inputs (Run.final (callStep config) start events)).1 = .ok () ∧
      Shows config table id (keepRow table id kept log)
        ((hydrate config log).run inputs (Run.final (callStep config) start events)).2 := by
    intro table id htable
    obtain ⟨kept, hshows, hversion⟩ := hlogged.shows hlog hquiet htable (hadmits table)
    have hensures := hydrate_shows htables htable log hlog.tables hshows
    exact ⟨kept, hversion, hensures.run (Prog.heeds_any _ _ _)⟩
  intro replay
  obtain ⟨_, _, hreply, _⟩ := hreplay "" "" (by decide)
  refine ⟨hreply, fun table id last hlast => ?_⟩
  obtain ⟨earlier, hsplit⟩ := List.getLast?_eq_some_iff.mp hlast
  have hmem : last ∈ rowLog log table id := by
    rw [hsplit]
    exact List.mem_append_right _ List.mem_cons_self
  obtain ⟨hin, htable, -⟩ := mem_rowLog.mp hmem
  obtain ⟨kept, hversion, -, hshows⟩ := hreplay table id (htable ▸ hlog.tables last hin)
  have hincreasing := hlog.rowLog_increasing table id
  rw [hsplit] at hincreasing
  have hearlier : ∀ change ∈ earlier, change.version ≤ last.version := fun change hchange =>
    ((List.pairwise_append.mp hincreasing).2.2 change hchange last List.mem_cons_self).le
  have hbefore : ∀ change, kept = some change → change.version ≤ last.version := by
    intro change hkept
    obtain ⟨logged, hlogged, hsame⟩ := hversion change hkept
    rw [← hsame]
    rw [hsplit] at hlogged
    rcases List.mem_append.mp hlogged with hold | hlast
    · exact hearlier logged hold
    · rw [List.mem_singleton.mp hlast]
  have hkeeps := Newest.keep_last (·.version) creates hbefore hearlier
  rw [keepRow, hsplit] at hshows
  exact hshows.isServers hkeeps

/-- The server logs a row as it normalized it, and another one created and removed. -/
def serverAt (wallMs : Nat) : Hlc := { wallMs := wallMs, counter := 0, actor := "server" }

def normalized : ChangeEvent :=
  { table := "todos", op := .upsert, id := "a", version := serverAt 9,
    row := some (.str "Edit"), writeKey := none }

def createdElsewhere : ChangeEvent := { normalized with id := "b", version := serverAt 6 }

def removedElsewhere : ChangeEvent :=
  { createdElsewhere with op := .delete, version := serverAt 7, row := none }

def shortLog : List ChangeEvent := [createdElsewhere, removedElsewhere, normalized]

/-- The client is told of the removal first, and writes the first row. -/
def tellRemoval : CallEvent := (.applyChange removedElsewhere, [])

def writeAcked : CallEvent :=
  (.write "todos" "a" (some (.str "edit")) {},
    [{}, {}, {}, {}, {}, {}, {}, { response := .ok (some (serverAt 9)) }])

/-- The change the write is sent as: its stamp is past the removal it was told of. -/
def writtenChange : ChangeEvent :=
  { table := "todos", op := .upsert, id := "a",
    version := { wallMs := 7, counter := 2, actor := "device" },
    row := some (.str "edit"), writeKey := some "device-0-0" }

theorem early_removal_converges :
    let after := Run.final (callStep sendingConfig) emptyReplica [tellRemoval, writeAcked]
    let replay := (hydrate sendingConfig shortLog).run [] after
    after.visible "todos" "a" = some (.str "edit") ∧ replay.1 = .ok () ∧
      IsServers normalized replay.2 "todos" "a" ∧
      IsServers removedElsewhere replay.2 "todos" "b" := by
  have hlog : ServerLog shortLog := ⟨by decide, by decide⟩
  have hack : ∀ change committedVersion, [writtenChange].getLast? = some change →
      Response.ok (some (serverAt 9)) = .ok committedVersion →
      LoggedFor shortLog change committedVersion := by
    intro change committedVersion hhanded hresponse
    obtain rfl := Option.some.inj hhanded
    obtain rfl := Response.ok.inj hresponse
    exact ⟨normalized, by simp [shortLog], rfl, rfl, rfl⟩
  have hrun : Run.Along (callStep sendingConfig) (LoggedCall sendingConfig shortLog) emptyReplica
      [tellRemoval, writeAcked] :=
    ⟨⟨by simp [tellRemoval, Call.delivered, shortLog], trivial, trivial, trivial, trivial⟩,
      ⟨by simp [writeAcked, Call.delivered], trivial, trivial, trivial, trivial, trivial, rfl,
        trivial, hack, trivial, trivial, trivial⟩, trivial⟩
  obtain ⟨hreply, hrows⟩ := replay_converges sendingConfig shortLog emptyReplica
    [tellRemoval, writeAcked] [] hlog rfl ⟨fun _ => rfl, rfl⟩ hrun rfl rfl
  exact ⟨rfl, hreply, hrows _ _ _ rfl, hrows _ _ _ rfl⟩

end ZedSync.Js
