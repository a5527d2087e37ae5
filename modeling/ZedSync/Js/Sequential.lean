import Mathlib.Logic.Relation
import ZedSync.Js.Slots
import ZedSync.Lib.Sequential

/-!
Sequential runs of a client: each call awaited before the next. Whatever a call is,
and however its sends turn out, the store moves by four kinds of effect only, and
the rules of a run say which of them it may have. What every effect keeps, every
run keeps.
-/

namespace ZedSync.Js

open Async

/-- The next call of a run, and what the outside answers it with. -/
abbrev CallEvent := Call × List Input

def callStep (config : ClientConfig) (world : World) (event : CallEvent) : World :=
  ((event.1.program config).run event.2 world).2

/-- A client with a sender of its own. -/
def sendingConfig : ClientConfig := { send := some .custom }

/-- The call sends its write before it stores it. -/
def Call.servesFirst (config : ClientConfig) : Call → Bool
  | .write _ _ _ options => options.mode.getD config.writeMode == .serverFirst
  | _ => false

/-- The queue stays below its bound, and the server answers what was handed to it
last as `answers` says. -/
def Permits (answers : Store → ChangeEvent → Option Hlc → Prop) :
    Action → Input → World → Prop
  | .enqueue write, _, world => (world.store.enqueue write).1.2 = none
  | .response, input, world => ∀ change committedVersion,
      world.handed.getLast? = some change → input.response = .ok committedVersion →
        answers world.store change committedVersion
  | _, _, _ => True

/-- What moves the store. -/
inductive Effect where
  | edited (write : QueuedWrite) (syncedAtMs : Option Nat)
  | received (change : ChangeEvent) (now : Nat)
  | settled (entry : QueueEntry) (committedVersion : Option Hlc) (now : Nat)
  | served (change : ChangeEvent) (committedVersion : Option Hlc) (now : Nat)

/-- The row of an optimistic write, put before the write is queued. -/
def Store.editRow (store : Store) (write : QueuedWrite) (syncedAtMs : Option Nat) : Store :=
  store.setRow write.table write.id
    { row := write.localRow
      rowMeta := { version := write.baseVersion, dirty := true, syncedAtMs := syncedAtMs } }

def Effect.apply : Effect → Store → Store
  | .edited write syncedAtMs, store => ((store.editRow write syncedAtMs).enqueue write).2
  | .received change now, store => store.receive change now
  | .settled entry committedVersion now, store =>
      (store.settleAck (.ofEntry entry committedVersion now)).2
  | .served change committedVersion now, store =>
      store.setRow change.table change.id
        { row := change.row
          rowMeta :=
            { version := committedVersion.getD change.version, dirty := false,
              syncedAtMs := some now } }

/-- The writes an effect queues. -/
def Effect.queues : Effect → List QueuedWrite
  | .edited write _ => [write]
  | .received _ _ | .settled _ _ _ | .served _ _ _ => []

/-- What effects show of a client: its store, and the writes it has queued so far. -/
structure Journal where
  store : Store
  queued : List QueuedWrite

def World.journal (world : World) : Journal := { store := world.store, queued := world.queued }

def Effect.record (effect : Effect) (journal : Journal) : Journal :=
  { store := effect.apply journal.store, queued := journal.queued ++ effect.queues }

/-- What a run may do: the tables it edits, the changes it is delivered, and the
answers its queued writes and its server-first writes get. -/
structure Rules where
  edits : String → Prop
  delivers : ChangeEvent → Prop
  answers : Store → ChangeEvent → Option Hlc → Prop
  serves : Store → ChangeEvent → Option Hlc → Prop

namespace Rules

variable (rules : Rules)

def Allows : Effect → Store → Prop
  | .edited write syncedAtMs, store =>
      rules.edits write.table ∧ ((store.editRow write syncedAtMs).enqueue write).1.2 = none
  | .received change _, _ => rules.delivers change
  | .settled entry committedVersion _, store =>
      entry ∈ store.queue ∧ rules.answers store entry.change committedVersion
  | .served change committedVersion _, store =>
      rules.edits change.table ∧ rules.serves store change committedVersion

def Moves (before after : Journal) : Prop :=
  ∃ effect, rules.Allows effect before.store ∧ after = effect.record before

abbrev Reaches : Journal → Journal → Prop := Relation.ReflTransGen rules.Moves

/-- The answers a call gets. -/
def answering (servesFirst : Bool) : Store → ChangeEvent → Option Hlc → Prop :=
  if servesFirst then rules.serves else rules.answers

/-- The call names only what the rules have. -/
def Covers : Call → Prop
  | .applyChange incoming => rules.delivers incoming
  | .hydrate changes => ∀ change ∈ changes, rules.delivers change
  | .write table _ _ _ => rules.edits table
  | .flushQueue _ => True
  | .newClient _ => True

end Rules

namespace Store

variable {store : Store}

theorem Slots.receive (h : store.Slots) (change : ChangeEvent) (now : Nat) :
    let after := store.receive change now
    after = store ∨
      (after = store.adopt change now ∧
        ∀ stored, store.getRow change.table change.id = some stored →
          stored.rowMeta.dirty = false) ∨
      (after.rows = (store.adopt change now).rows ∧ after.Slots ∧
        ∀ entry, entry ∈ after.queue ↔
          entry ∈ store.queue ∧ entry.sameRow change.table change.id = false) := by
  intro after
  by_cases houtruns : ∃ stored, store.getRow change.table change.id = some stored ∧
      stored.rowMeta.dirty = true ∧ stored.rowMeta.version < change.version
  · obtain ⟨stored, hstored, hdirty, hnewer⟩ := houtruns
    have hafter : after =
        Store.retireRow change.table change.id store.queue (store.adopt change now) := by
      simp [after, Store.receive, hstored, hdirty, hnewer.not_gt, hnewer.ne']
    have hadopted : (store.adopt change now).Slots := h.of_same rfl rfl
    have hretired := hadopted.retireRow change.table change.id
    refine Or.inr (Or.inr ?_)
    rw [hafter]
    exact ⟨retireRow_rows _ _ _ _, hretired.1, hretired.2⟩
  · rcases receive_cases now fun stored hstored hdirty hnewer =>
      houtruns ⟨stored, hstored, hdirty, hnewer⟩ with hsame | hadopted
    · exact Or.inl hsame
    · exact Or.inr (Or.inl hadopted)

end Store

namespace Rules

variable {rules : Rules} {before after : Journal}

theorem Allows.slots {effect : Effect} {store : Store} (hallows : rules.Allows effect store)
    (hslots : store.Slots) : (effect.apply store).Slots := by
  cases effect with
  | edited write syncedAtMs =>
      have hedited : (store.editRow write syncedAtMs).Slots := hslots.of_same rfl rfl
      exact (hedited.enqueue hallows.2).1
  | received change now =>
      rcases hslots.receive change now with hsame | ⟨hadopted, -⟩ | ⟨-, hretired, -⟩
      · rw [Effect.apply, hsame]
        exact hslots
      · rw [Effect.apply, hadopted]
        exact hslots.of_same rfl rfl
      · exact hretired
  | settled entry committedVersion now =>
      rcases hslots.settleAck hallows.1 committedVersion now with hsame | ⟨-, -, hsettled, -⟩
      · rw [Effect.apply, hsame]
        exact hslots
      · exact hsettled
  | served change committedVersion now => exact hslots.of_same rfl rfl

theorem Moves.slots (h : rules.Moves before after) (hslots : before.store.Slots) :
    after.store.Slots := by
  obtain ⟨effect, hallows, rfl⟩ := h
  exact hallows.slots hslots

theorem Reaches.slots (h : rules.Reaches before after) (hslots : before.store.Slots) :
    after.store.Slots := by
  induction h with
  | refl => exact hslots
  | tail _ hmoves ih => exact hmoves.slots ih

/-- What every effect the rules allow keeps. -/
def Keeps (rules : Rules) (J : Store → Prop) : Prop :=
  ∀ effect store, store.Slots → J store → rules.Allows effect store → J (Effect.apply effect store)

theorem Reaches.keeps {J : Store → Prop} (h : rules.Reaches before after)
    (hkeeps : rules.Keeps J) (hslots : before.store.Slots) (hinit : J before.store) :
    J after.store := by
  have hboth : after.store.Slots ∧ J after.store := by
    induction h with
    | refl => exact ⟨hslots, hinit⟩
    | tail _ hmoves ih =>
        refine ⟨hmoves.slots ih.1, ?_⟩
        obtain ⟨effect, hallows, rfl⟩ := hmoves
        exact hkeeps effect _ ih.1 ih.2 hallows
  exact hboth.2

end Rules

section Sends

variable {answers : Store → ChangeEvent → Option Hlc → Prop}

/-- A send left the journal alone, and its acknowledgement is one the server gives. -/
def Replied (answers : Store → ChangeEvent → Option Hlc → Prop) (journal : Journal)
    (change : ChangeEvent) (reply : Outcome (Option Hlc)) (later : World) : Prop :=
  later.journal = journal ∧ ∀ committedVersion, reply = .ok committedVersion →
    answers journal.store change committedVersion

theorem awaitResponse_ensures {change : ChangeEvent} {world : World}
    (hhanded : world.handed.getLast? = some change) :
    transmit.awaitResponse.Ensures (Permits answers) (Replied answers world.journal change)
      world := by
  intro input hpermits
  cases hresponse : input.response with
  | failed message =>
      simp only [perform, hresponse]
      exact ⟨rfl, fun _ herror => by cases herror⟩
  | ok committedVersion =>
      simp only [perform, hresponse]
      refine ⟨rfl, fun other hother => ?_⟩
      obtain rfl := Except.ok.inj hother
      exact hpermits change committedVersion hhanded hresponse

theorem transmit_ensures (transport : SendTransport) {change : ChangeEvent} {world : World}
    (hhanded : world.handed.getLast? = some change) :
    (transmit transport change).Ensures (Permits answers) (Replied answers world.journal change)
      world := by
  cases transport with
  | custom => exact awaitResponse_ensures hhanded
  | backend getToken =>
      cases getToken with
      | false =>
          intro _ _
          exact awaitResponse_ensures hhanded
      | true =>
          intro input _
          cases htoken : input.tokenOk with
          | false =>
              simp only [perform, htoken]
              exact ⟨rfl, fun _ herror => by cases herror⟩
          | true =>
              simp only [perform, htoken]
              intro _ _
              exact awaitResponse_ensures hhanded

theorem doSend_ensures (config : ClientConfig) (change : ChangeEvent) (world : World) :
    (doSend config change).Ensures (Permits answers) (Replied answers world.journal change)
      world := by
  unfold doSend
  split
  · exact ⟨rfl, nofun⟩
  · rename_i transport _
    intro _ _
    have hhanded : ({ world with handed := world.handed ++ [change] } : World).handed.getLast? =
        some change := List.getLast?_concat
    exact transmit_ensures transport hhanded

end Sends

section Calls

variable {rules : Rules} (config : ClientConfig)

/-- The program, answered as `answers` says, moves the store as the rules allow. -/
abbrev MovesBy (rules : Rules) (answers : Store → ChangeEvent → Option Hlc → Prop)
    (program : Prog session α) (world : World) : Prop :=
  program.Ensures (Permits answers)
    (fun _ (later : World) => rules.Reaches world.journal later.journal) world

/-- A journal that stays is reached by no effect. -/
theorem Rules.Reaches.unchanged {rules : Rules} {before after : Journal} (h : after = before) :
    rules.Reaches before after := by
  rw [h]

theorem Rules.Reaches.allowed {rules : Rules} {before after middle : Journal}
    (h : rules.Reaches before middle) (effect : Effect)
    (hallows : rules.Allows effect middle.store) (hafter : after = effect.record middle) :
    rules.Reaches before after :=
  h.tail ⟨effect, hallows, hafter⟩

theorem settle_journal (world : World) (entry : QueueEntry) (committedVersion : Option Hlc)
    (now : Nat) : (world.settle (.ofEntry entry committedVersion now)).2.journal =
      (Effect.settled entry committedVersion now).record world.journal := by
  simp [World.journal, World.settle, Effect.record, Effect.apply, Effect.queues]

/-- A delivery queues nothing. -/
theorem applyChange_queues (incoming : ChangeEvent) (inputs : List Input) (world : World) :
    ((applyChange config incoming).run inputs world).2.queued = world.queued := by
  have hqueues : (applyChange config incoming).Ensures (fun _ _ _ => True)
      (fun _ (later : World) => later.queued = world.queued) world := by
    refine Prog.Ensures.of_only (fun action input later hdelivers hsame _ => ?_)
      (applyChange_delivers config incoming) rfl
    refine Eq.trans ?_ hsame
    rcases hdelivers with ⟨stored, hputs, -⟩ | hdecides
    · cases action <;> first | rfl | cases hputs
    · cases action <;> first | rfl | exact hdecides.elim
  exact hqueues.run (Prog.heeds_any _ _ _)

theorem applyChange_moves {answers : Store → ChangeEvent → Option Hlc → Prop}
    (incoming : ChangeEvent) (world : World) (hdelivers : rules.delivers incoming) :
    MovesBy rules answers (applyChange config incoming) world := by
  apply Prog.Ensures.of_runs
  intro inputs
  by_cases hadmits : world.Admits config incoming.table
  · obtain ⟨now, hstore, -⟩ := run_applyChange config incoming inputs world hadmits
    refine Rules.Reaches.allowed .refl (.received incoming now) hdelivers ?_
    have hqueued := applyChange_queues config incoming inputs world
    simp [World.journal, Effect.record, Effect.apply, Effect.queues, hstore, hqueued]
  · rw [run_applyChange_refused config incoming inputs world hadmits]

theorem hydrate_moves {answers : Store → ChangeEvent → Option Hlc → Prop}
    (changes : List ChangeEvent) (world : World)
    (hdelivers : ∀ change ∈ changes, rules.delivers change) :
    MovesBy rules answers (hydrate config changes) world := by
  induction changes generalizing world with
  | nil =>
      show rules.Reaches world.journal world.journal
      exact .refl
  | cons change rest ih =>
      have hfirst : MovesBy rules answers (applyChange config change) world :=
        applyChange_moves config change world (hdelivers change List.mem_cons_self)
      refine hfirst.bind fun reply later hreached => ?_
      cases reply with
      | error error => exact hreached
      | ok outcome =>
          have hrest := ih later fun other hother => hdelivers other (List.mem_cons_of_mem _ hother)
          exact hrest.mono fun _ _ hlater => hreached.trans hlater

theorem sendQueued_moves {write : QueuedWrite} {seq : Nat} {world : World} (mode : WriteMode)
    (policy : ErrorPolicy) (hqueued : write.atSeq seq ∈ world.store.queue) :
    MovesBy rules rules.answers (sendQueued config write seq mode policy) world := by
  refine (doSend_ensures config (write.atSeq seq).change world).bind fun reply later hreplied => ?_
  obtain ⟨hjournal, hanswers⟩ := hreplied
  cases reply with
  | error error =>
      exact Rules.Reaches.unchanged hjournal
  | ok committedVersion =>
      intro now _ settle _
      have hallows : rules.Allows (.settled (write.atSeq seq) committedVersion now.now)
          world.store := ⟨hqueued, hanswers committedVersion rfl⟩
      refine Rules.Reaches.allowed .refl _ hallows ?_
      rw [← hjournal]
      exact settle_journal later _ committedVersion now.now

/-- The optimistic write from the enqueue on, its row already edited. -/
theorem queueAndSend_moves {journal : Journal} {world : World} (hslots : journal.store.Slots)
    (write : QueuedWrite) (syncedAtMs : Option Nat) (mode : WriteMode) (policy : ErrorPolicy)
    (hedits : rules.edits write.table)
    (hstore : world.store = journal.store.editRow write syncedAtMs)
    (hqueued : world.queued = journal.queued) :
    (queueAndSend config write mode policy).Ensures (Permits rules.answers)
      (fun _ (final : World) => rules.Reaches journal final.journal) world := by
  intro enqueueInput hpermits
  let edited : Store := journal.store.editRow write syncedAtMs
  have hstore : world.store = edited := hstore
  have hroom : (edited.enqueue write).1.2 = none := by
    rw [← hstore]
    exact hpermits
  have hedited : edited.Slots := hslots.of_same rfl rfl
  have htakes := (hedited.enqueue hroom).2
  let entered : World :=
    { world with
      store := (edited.enqueue write).2
      queued := world.queued ++ [write] }
  have hreached : rules.Reaches journal entered.journal := by
    refine Rules.Reaches.allowed .refl (.edited write syncedAtMs) ⟨hedits, hroom⟩ ?_
    simp [entered, World.journal, Effect.record, Effect.apply, Effect.queues, hqueued, edited]
  have hentered : (perform (.enqueue write) enqueueInput world) =
      (((edited.enqueue write).1.1, none), entered) := by
    simp only [perform, hstore, entered]
    exact Prod.ext (Prod.ext rfl hroom) rfl
  simp only [hentered]
  split
  · exact hreached
  · have hin : write.atSeq (edited.enqueue write).1.1 ∈ entered.store.queue :=
      (htakes _).mpr (Or.inl rfl)
    exact (sendQueued_moves config mode policy hin).mono fun _ _ hlater => hreached.trans hlater

/-- The optimistic write from the put of its row on. -/
theorem writeLocally_moves {world : World} (hslots : world.store.Slots) (write : QueuedWrite)
    (merge : Bool) (mode : WriteMode) (policy : ErrorPolicy) (existing : Option StoredRow)
    (hedits : rules.edits write.table) :
    MovesBy rules rules.answers (writeLocally config write merge mode policy existing) world := by
  let merged : QueuedWrite :=
    { write with payload := mergedRow write.op merge existing write.payload }
  let syncedAtMs := existing.bind (·.rowMeta.syncedAtMs)
  have hqueue : ∀ later : World, later.store = world.store.editRow merged syncedAtMs →
      later.queued = world.queued →
      (queueAndSend config merged mode policy).Ensures (Permits rules.answers)
        (fun _ (final : World) => rules.Reaches world.journal final.journal) later :=
    fun _ hstore hqueued =>
      queueAndSend_moves config hslots merged syncedAtMs mode policy hedits hstore hqueued
  unfold writeLocally
  dsimp only
  split
  · rename_i hdelete
    intro _ _
    refine hqueue _ ?_ rfl
    simp [perform, World.removeRow, Store.removeRow, Store.editRow, merged, syncedAtMs,
      QueuedWrite.localRow, hdelete]
  · rename_i hupsert
    intro _ _
    refine hqueue _ ?_ rfl
    simp [perform, World.putRow, Store.putRow, Store.editRow, merged, syncedAtMs,
      QueuedWrite.localRow, hupsert]

/-- A write past the client stores a row only when it is server-first. -/
theorem writeThroughServer_moves {answers : Store → ChangeEvent → Option Hlc → Prop}
    (change : ChangeEvent) (mode : WriteMode) (policy : ErrorPolicy) (world : World)
    (hedits : rules.edits change.table)
    (hserves : mode = .serverFirst → ∀ store committedVersion,
      answers store change committedVersion → rules.serves store change committedVersion) :
    MovesBy rules answers (writeThroughServer config change mode policy) world := by
  refine (doSend_ensures config change world).bind fun reply later hreplied => ?_
  obtain ⟨hjournal, hanswers⟩ := hreplied
  cases reply with
  | error error =>
      exact Rules.Reaches.unchanged hjournal
  | ok committedVersion =>
      dsimp only
      split
      · rename_i hmode
        intro now _ put _
        have hallows : rules.Allows (.served change committedVersion now.now) world.store :=
          ⟨hedits, hserves hmode _ _ (hanswers committedVersion rfl)⟩
        refine Rules.Reaches.allowed .refl _ hallows ?_
        rw [← hjournal]
        simp [World.journal, Effect.record, Effect.apply, Effect.queues, perform, World.putRow,
          Store.putRow]
      · exact Rules.Reaches.unchanged hjournal

theorem writeStamped_moves {world : World} (hslots : world.store.Slots) (stamped : QueuedWrite)
    (merge : Bool) (mode : WriteMode) (policy : ErrorPolicy) (hedits : rules.edits stamped.table) :
    MovesBy rules (rules.answering (mode == .serverFirst))
      (writeStamped config stamped merge mode policy) world := by
  unfold writeStamped
  split
  · apply writeThroughServer_moves
    · exact hedits
    · intro hmode store committedVersion hanswers
      simpa [Rules.answering, hmode] using hanswers
  · rename_i hlocal
    have hanswering : rules.answering (mode == .serverFirst) = rules.answers := by
      have hnot : (mode == .serverFirst) = false :=
        beq_eq_false_iff_ne.mpr fun hmode => hlocal (Or.inl hmode)
      rw [hnot]
      rfl
    rw [hanswering]
    intro _ _
    exact writeLocally_moves config hslots stamped merge mode policy _ hedits

theorem write_moves {world : World} (hslots : world.store.Slots) (table id : String)
    (row : Option Json) (options : WriteOptions) (hedits : rules.edits table) :
    MovesBy rules (rules.answering ((Call.write table id row options).servesFirst config))
      (write config table id row options) world := by
  intro _ _
  simp only [perform]
  cases world.refusal .canWrite with
  | some phase => exact .refl
  | none =>
      intro tickInput _ keyInput _
      let stamped : QueuedWrite :=
        { table := table, id := id, op := options.resolveOp row, payload := row
          baseVersion := (Js.tick world.clock tickInput.now).stamp
          key := nextKey (Js.tick world.clock tickInput.now).actor keyInput.now world.keySeq }
      let ticked : World :=
        { world with
          clock := Js.tick world.clock tickInput.now, keySeq := world.keySeq + 1 }
      have hticked : ticked.store.Slots := hslots
      exact writeStamped_moves config hticked stamped options.merge
        (options.mode.getD config.writeMode) (options.errorPolicy.getD config.errorPolicy) hedits

theorem sendEntry_ensures {answers : Store → ChangeEvent → Option Hlc → Prop}
    {entry : QueueEntry} {world : World} (hderef : world.store.deref entry = entry) :
    (flushEach.sendEntry config entry).Ensures (Permits answers)
      (Replied answers world.journal entry.change) world := by
  unfold flushEach.sendEntry
  split
  · exact ⟨rfl, fun _ herror => by cases herror⟩
  · rename_i transport _
    intro _ _
    simp only [perform, hderef]
    have hhanded : ({ world with handed := world.handed ++ [entry.change] } :
        World).handed.getLast? = some entry.change := List.getLast?_concat
    exact transmit_ensures transport hhanded

/-- The loop of a flush, over entries that are all still queued. -/
theorem flushEach_moves (policy : ErrorPolicy) (sent : Nat) (entries : List QueueEntry)
    {world : World} (hslots : world.store.Slots) (hnodup : entries.Nodup)
    (hqueued : ∀ entry ∈ entries, entry ∈ world.store.queue) :
    MovesBy rules rules.answers (flushEach config policy sent entries) world := by
  induction entries generalizing sent world with
  | nil =>
      show rules.Reaches world.journal world.journal
      exact .refl
  | cons entry rest ih =>
      have hentry := hqueued entry List.mem_cons_self
      have hderef := hslots.deref hentry
      unfold flushEach
      refine (sendEntry_ensures config hderef).bind fun reply later hreplied => ?_
      obtain ⟨hjournal, hanswers⟩ := hreplied
      cases reply with
      | error error =>
          exact Rules.Reaches.unchanged hjournal
      | ok committedVersion =>
          intro settleInput _
          let settled : Effect := .settled entry committedVersion settleInput.now
          have hallows : rules.Allows settled world.journal.store :=
            ⟨hentry, hanswers committedVersion rfl⟩
          have hreached : rules.Reaches world.journal (settled.record world.journal) :=
            .single ⟨settled, hallows, rfl⟩
          have hlater : later.store = world.store := congrArg Journal.store hjournal
          have hafter :
              (perform (.settleEntry entry committedVersion) settleInput later).2.journal =
                settled.record world.journal := by
            rw [← hjournal]
            simp only [perform, hlater, hderef]
            exact settle_journal later entry committedVersion settleInput.now
          have hstore : (perform (.settleEntry entry committedVersion) settleInput later).2.store =
              settled.apply world.store := congrArg Journal.store hafter
          have hrest : ∀ other ∈ rest, other ∈ (settled.apply world.store).queue := by
            intro other hother
            apply hslots.settleAck_others hentry (hqueued other (List.mem_cons_of_mem _ hother))
            rintro rfl
            exact (List.nodup_cons.mp hnodup).1 hother
          have hnext : MovesBy rules rules.answers (flushEach config policy (sent + 1) rest)
              (perform (.settleEntry entry committedVersion) settleInput later).2 := by
            apply ih
            · rw [hstore]
              exact hallows.slots hslots
            · exact (List.nodup_cons.mp hnodup).2
            · rw [hstore]
              exact hrest
          refine hnext.mono fun _ final hfinal => ?_
          rw [hafter] at hfinal
          exact hreached.trans hfinal

theorem flushQueue_moves (policy : ErrorPolicy) {world : World} (hslots : world.store.Slots) :
    MovesBy rules rules.answers (flushQueue config policy) world := by
  intro _ _
  simp only [perform]
  cases world.refusal .canWrite with
  | some phase => exact .refl
  | none =>
      intro _ _
      exact flushEach_moves config policy 0 _ hslots (List.Nodup.of_map _ hslots.distinct)
        fun _ hentry => hentry

/-- A call alone moves the store by effects of the rules. -/
theorem call_reaches {world : World} (hslots : world.store.Slots) {event : CallEvent}
    (hcovers : rules.Covers event.1)
    (hheeds : (event.1.program config).Heeds
      (Permits (rules.answering (event.1.servesFirst config))) event.2 world) :
    rules.Reaches world.journal (callStep config world event).journal := by
  obtain ⟨call, inputs⟩ := event
  have hmoves : MovesBy rules (rules.answering (call.servesFirst config))
      (call.program config) world := by
    cases call with
    | applyChange incoming =>
        exact (applyChange_moves config incoming world hcovers).bind fun _ _ hreached => hreached
    | hydrate changes =>
        exact (hydrate_moves config changes world hcovers).bind fun _ _ hreached => hreached
    | write table id row options =>
        exact (write_moves config hslots table id row options hcovers).bind
          fun _ _ hreached => hreached
    | flushQueue policy =>
        exact (flushQueue_moves config policy hslots).bind fun _ _ hreached => hreached
    | newClient newProcess =>
        intro _ _
        exact .refl
  exact hmoves.run hheeds

/-- What every effect of the rules keeps holds after every run that follows them. -/
theorem Rules.run_keeps {J : Store → Prop} (hkeeps : rules.Keeps J) {start : World}
    (hslots : start.store.Slots) (hinit : J start.store) {events : List CallEvent}
    (halong : Run.Along (callStep config)
      (fun world event => rules.Covers event.1 ∧ (event.1.program config).Heeds
        (Permits (rules.answering (event.1.servesFirst config))) event.2 world) start events) :
    (Run.final (callStep config) start events).store.Slots ∧
      J (Run.final (callStep config) start events).store := by
  refine Run.induction (J := fun world => world.store.Slots ∧ J world.store) ?_
    ⟨hslots, hinit⟩ halong
  intro world event hinv hevent
  have hreached := call_reaches config hinv.1 hevent.1 hevent.2
  exact ⟨hreached.slots hinv.1, hreached.keeps hkeeps hinv.1 hinv.2⟩

end Calls

end ZedSync.Js
