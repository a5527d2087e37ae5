import ZedSync.Js.ExactlyOnce
import ZedSync.Js.Slots

/-!
No write is lost on its way to the service. A write leaves the queue of a database
by the settlement of its own answer, by a newer write to its row, or because a
delivery or the bound of the queue drops it; where the last two do not happen, the
newest write of a row is queued until it is answered. Which answers came is kept
beside the world: nothing in a client's state records it.
-/

namespace ZedSync.Js

open Async

/-- The change each thread sent last, and the changes answered otherwise than with a
failure. -/
structure Sends where
  inFlight : Nat → Option ChangeEvent := fun _ => none
  acked : List ChangeEvent := []

/-- What an action of a thread adds: a change is on its way, or an answer came. -/
def Sends.mark (thread : Nat) : Action → Input → World → Sends → Sends
  | .handOff change, _, _, sends =>
      { sends with inFlight := Function.update sends.inFlight thread (some change) }
  | .handOffEntry entry, _, world, sends =>
      { sends with
        inFlight := Function.update sends.inFlight thread (some (world.store.deref entry).change) }
  | .response, input, _, sends =>
      if CallStage.isOk input.response then
        { sends with acked := (sends.inFlight thread).toList ++ sends.acked }
      else sends
  | _, _, _, sends => sends

section Sends

variable {thread other : Nat} {action : Action} {input : Input} {world : World} {sends : Sends}

theorem Sends.mark_acked : sends.acked ⊆ (Sends.mark thread action input world sends).acked := by
  cases action with
  | response =>
      simp only [Sends.mark]
      split
      · exact List.subset_append_right _ _
      · exact fun _ h => h
  | _ => exact fun _ h => h

theorem Sends.mark_other (hother : other ≠ thread) :
    (Sends.mark thread action input world sends).inFlight other = sends.inFlight other := by
  cases action with
  | handOff change => exact Function.update_of_ne hother _ _
  | handOffEntry entry => exact Function.update_of_ne hother _ _
  | response =>
      simp only [Sends.mark]
      split <;> rfl
  | _ => rfl

/-- What a call knows of its sends at a stage. -/
structure Sends.Knows (thread : Nat) (stage : CallStage) (sends : Sends) : Prop where
  inFlight : sends.inFlight thread = stage.sent
  source : ∀ entry, stage.source = some entry → stage.sent = some entry.change
  answered : stage.answered = true → ∀ change, stage.sent = some change → change ∈ sends.acked

theorem Sends.Knows.spared {stage : CallStage} (h : Sends.Knows other stage sends)
    (hother : other ≠ thread) :
    Sends.Knows other stage (Sends.mark thread action input world sends) :=
  ⟨(Sends.mark_other hother).trans h.inFlight, h.source,
    fun hanswered change hchange => Sends.mark_acked (h.answered hanswered change hchange)⟩

theorem Sends.Knows.learns {stage after : CallStage} (h : Sends.Knows thread stage sends)
    (hkind : world.store.kind = .indexedDb)
    (hnext : stage.Next action (perform action input world).1 after) :
    Sends.Knows thread after (Sends.mark thread action input world sends) := by
  cases action with
  | handOff change =>
      rcases hnext with ⟨-, rfl⟩ | ⟨key, -, -, rfl⟩
      all_goals exact ⟨Function.update_self _ _ _, nofun, nofun⟩
  | handOffEntry entry =>
      obtain ⟨-, rfl⟩ := hnext
      refine ⟨Function.update_self _ _ _, ?_, nofun⟩
      rintro source ⟨⟩
      exact congrArg (fun current => some current.change) (Store.deref_indexedDb hkind entry)
  | response =>
      obtain rfl := hnext
      simp only [Sends.mark]
      split
      · refine ⟨h.inFlight, h.source, fun _ change hchange => List.mem_append_left _ ?_⟩
        exact Option.mem_toList.mpr (h.inFlight.trans hchange)
      · rename_i hfailed
        exact ⟨h.inFlight, h.source, fun hok => absurd hok hfailed⟩
  | nextKey | pending =>
      obtain rfl := hnext
      exact ⟨h.inFlight, h.source, h.answered⟩
  | enqueue write =>
      obtain ⟨-, rfl⟩ := hnext
      exact ⟨h.inFlight, h.source, h.answered⟩
  | _ =>
      obtain rfl := CallStage.next_same hnext rfl
      exact h

end Sends

/-- The newest write to a row, of all that were ever queued. -/
def World.lastQueued (world : World) (table id : String) : Option QueuedWrite :=
  (world.queued.filter fun write => write.table = table ∧ write.id = id).getLast?

/-- The newest write of the row is queued as it was written, or its answer came. -/
def Accounted (table id : String) (acked : List ChangeEvent) (world : World) : Prop :=
  ∀ write, world.lastQueued table id = some write →
    Queued write world ∨ (write.atSeq 0).change ∈ acked

/-- The entries an action drops although no answer to them came: a full queue makes
room for another, and a delivery that wins over the queued writes of its row retires
their slot. -/
def Action.drops (world : World) : Action → List QueueEntry
  | .enqueue write => (world.store.enqueue write).1.2.toList
  | .retire seq => world.store.queue.filter (·.seq = seq)
  | _ => []

/-- The action drops no write of the row. -/
def KeepsSlot (table id : String) (action : Action) (world : World) : Prop :=
  ∀ entry ∈ action.drops world, entry.sameRow table id = false

instance (table id : String) (action : Action) (world : World) :
    Decidable (KeepsSlot table id action world) :=
  inferInstanceAs (Decidable (∀ entry ∈ action.drops world, entry.sameRow table id = false))

theorem KeepsSlot.not_dropped {table id : String} {action : Action} {world : World}
    (h : KeepsSlot table id action world) {entry : QueueEntry}
    (hrow : entry.sameRow table id = true) : entry ∉ action.drops world := by
  intro hdropped
  have hother := h entry hdropped
  rw [hrow] at hother
  cases hother

theorem World.lastQueued_row {world : World} {table id : String} {write : QueuedWrite}
    (h : world.lastQueued table id = some write) : write.table = table ∧ write.id = id := by
  have hmem := List.mem_of_getLast? h
  simpa using (List.mem_filter.mp hmem).2

theorem World.lastQueued_append {world after : World} {table id : String} {write : QueuedWrite}
    (h : after.queued = world.queued ++ [write]) :
    after.lastQueued table id =
      if write.table = table ∧ write.id = id then some write else world.lastQueued table id := by
  unfold World.lastQueued
  rw [h, List.filter_append]
  split
  · rename_i hrow
    simp [hrow]
  · rename_i hother
    simp [hother]

section

variable {table id : String} {acked acked' : List ChangeEvent} {world after : World}

/-- No write is queued, and what is taken from the row's slot was answered. -/
theorem Accounted.of_queued (h : Accounted table id acked world)
    (hqueued : after.queued = world.queued) (hacked : acked ⊆ acked')
    (hkept : ∀ entry ∈ world.store.queue, entry.sameRow table id = true →
      entry ∈ after.store.queue ∨ entry.change ∈ acked') :
    Accounted table id acked' after := by
  intro write hlast
  have hbefore : world.lastQueued table id = some write := by
    rw [← hlast, World.lastQueued, World.lastQueued, hqueued]
  rcases h write hbefore with ⟨entry, hentry, rfl⟩ | hdone
  · have hrow := Store.sameRow_iff.mpr (World.lastQueued_row hbefore)
    rcases hkept entry hentry hrow with hstays | hanswered
    · exact Or.inl ⟨entry, hstays, rfl⟩
    · exact Or.inr hanswered
  · exact Or.inr (hacked hdone)

/-- A write is queued: it has its row's slot, and the slot of the row stays unless it
is dropped. -/
theorem Accounted.enqueue (h : Accounted table id acked world)
    (hkind : world.store.kind = .indexedDb) (hslots : world.store.Slots) {write : QueuedWrite}
    (hkeeps : KeepsSlot table id (.enqueue write) world) (input : Input) :
    Accounted table id acked (perform (.enqueue write) input world).2 := by
  obtain ⟨-, hown, hothers⟩ := hslots.enqueue_database hkind write
  intro newest hlast
  rw [World.lastQueued_append rfl] at hlast
  split at hlast
  · obtain rfl := Option.some.inj hlast
    exact Or.inl ⟨_, hown, rfl⟩
  · rename_i hother
    rcases h newest hlast with ⟨entry, hentry, rfl⟩ | hdone
    · obtain ⟨htable, hid⟩ := World.lastQueued_row hlast
      have hrow : entry.sameRow write.table write.id = false :=
        Store.not_sameRow_iff.mpr fun hsame =>
          hother ⟨hsame.1.symm.trans htable, hsame.2.symm.trans hid⟩
      have hstays := hothers entry hentry hrow
        (hkeeps.not_dropped (Store.sameRow_iff.mpr ⟨htable, hid⟩))
      exact Or.inl ⟨entry, hstays, rfl⟩
    · exact Or.inr hdone

end

namespace NoLostWrites

open WriteKeys (Owners Era)

/-- The keys identify their changes, the slots of the database are in order, and the
row's newest write is accounted for. -/
structure Inv (era : Era) (table id : String) (state : World × Owners × Sends) : Prop where
  keys : WriteKeys.Inv era (state.1, state.2.1)
  database : state.1.store.kind = .indexedDb
  slots : state.1.store.Slots
  accounted : Accounted table id state.2.2.acked state.1

structure Knows (thread : Nat) (stage : CallStage) (state : World × Owners × Sends) : Prop where
  keys : WriteKeys.Knows thread stage (state.1, state.2.1)
  sends : Sends.Knows thread stage state.2.2

def mark (thread : Nat) (action : Action) (input : Input) (world : World)
    (history : Owners × Sends) : Owners × Sends :=
  (WriteKeys.mark thread action input world history.1,
    Sends.mark thread action input world history.2)

variable {era : Era} {table id : String} {thread : Nat} {stage after : CallStage}
  {state : World × Owners × Sends} {action : Action} {input : Input}

/-- A settlement takes away only what was answered: what has the key it settles is
what was sent under it. -/
theorem Inv.settled (h : Inv era table id state) {sent : ChangeEvent}
    (hkeyed : sent ∈ state.1.keyed) (hacked : sent ∈ state.2.2.acked) (options : SettleOptions)
    (hkey : sent.writeKey = some options.writeKey) :
    (state.1.settle options).2.store.kind = .indexedDb ∧
      (state.1.settle options).2.store.Slots ∧
      Accounted table id state.2.2.acked (state.1.settle options).2 := by
  obtain ⟨hslots, hkind, hentries⟩ := h.slots.settles options
  refine ⟨hkind.trans h.database, hslots, ?_⟩
  refine h.accounted.of_queued rfl (fun _ h => h) fun entry hentry _ => ?_
  refine (hentries entry hentry).imp_right fun hsettled => ?_
  have hsame : entry.change = sent := by
    apply h.keys.identify entry.change (h.keys.stored entry (Or.inl hentry)) sent hkeyed
    rw [hkey, ← hsettled]
    rfl
  exact hsame ▸ hacked

/-- What one action leaves of the slots and of the row's newest write. -/
theorem Inv.performs (h : Inv era table id state) (hknows : Knows thread stage state)
    (hkeeps : KeepsSlot table id action state.1)
    (hnext : stage.Next action (perform action input state.1).1 after) :
    (perform action input state.1).2.store.kind = .indexedDb ∧
      (perform action input state.1).2.store.Slots ∧
      Accounted table id (Sends.mark thread action input state.1 state.2.2).acked
        (perform action input state.1).2 := by
  have hidle : ∀ {world : World}, world.queued = state.1.queued →
      world.store.queue = state.1.store.queue → world.store.seq = state.1.store.seq →
      world.store.kind = state.1.store.kind →
      world.store.kind = .indexedDb ∧ world.store.Slots ∧
        Accounted table id (Sends.mark thread action input state.1 state.2.2).acked world := by
    intro world hqueued hqueue hseq hkind
    refine ⟨hkind.trans h.database, h.slots.of_same hqueue hseq, ?_⟩
    exact h.accounted.of_queued hqueued Sends.mark_acked fun entry hentry _ =>
      Or.inl (hqueue ▸ hentry)
  cases action with
  | enqueue write =>
      refine ⟨(Store.enqueue_kind _ _).trans h.database,
        (h.slots.enqueue_database h.database write).1, ?_⟩
      exact h.accounted.enqueue h.database h.slots hkeeps input
  | retire seq =>
      refine ⟨h.database, h.slots.of_sublist List.filter_sublist rfl, ?_⟩
      refine h.accounted.of_queued rfl Sends.mark_acked fun entry hentry hrow => Or.inl ?_
      have hother : entry.seq ≠ seq := by
        intro hseq
        apply hkeeps.not_dropped hrow
        exact List.mem_filter.mpr ⟨hentry, by simpa using hseq⟩
      exact List.mem_filter.mpr ⟨hentry, by simpa using hother⟩
  | settleAck options =>
      obtain ⟨hanswered, -, write, seq, committedVersion, now, hsent, rfl⟩ := hnext
      exact h.settled (hknows.keys.sent _ hsent) (hknows.sends.answered hanswered _ hsent) _ rfl
  | settleEntry entry committedVersion =>
      obtain ⟨hanswered, hsource, -⟩ := hnext
      have hsent := hknows.sends.source entry hsource
      have hsettle := h.settled (hknows.keys.sent _ hsent)
        (hknows.sends.answered hanswered _ hsent)
        (.ofEntry entry committedVersion input.now) rfl
      rw [← Store.deref_indexedDb h.database entry] at hsettle
      exact hsettle
  | dispatch _ | lock | renew | afterRenew _ _ | readHandle | stopBegin | releaseLease
  | settled => exact hnext.elim
  | _ => exact hidle rfl rfl rfl rfl

def upkeep (era : Era) (table id : String) :
    Upkeep session CallStage (Owners × Sends) fun _ _ action input world =>
      MintsWithin era.startMs era.endMs action input world ∧ KeepsSlot table id action world where
  next := CallStage.Next
  mark := mark
  Inv := Inv era table id
  Knows := Knows
  own := by
    rintro thread stage action input state after hinv hknows ⟨hmints, hkeeps⟩ hnext
    obtain ⟨hkind, hslots, haccounted⟩ := hinv.performs hknows hkeeps hnext
    refine ⟨⟨(hknows.keys.moves hinv.keys hmints hnext).inv, hkind, hslots, haccounted⟩, ?_⟩
    exact ⟨hknows.keys.learns hinv.keys hmints hnext, hknows.sends.learns hinv.database hnext⟩
  others := by
    rintro thread stage action input state after hinv hknows ⟨hmints, -⟩ hnext other seen hother
      hseen
    exact ⟨hseen.keys.spared (hknows.keys.moves hinv.keys hmints hnext) hother,
      hseen.sends.spared hother⟩

end NoLostWrites

open WriteKeys (Era)
open NoLostWrites

/-- A process on a database, in any interleaving of its calls: if the newest write of
a row was accounted for at the start, it is at the end. -/
theorem process_loses_no_write (config : ClientConfig) (calls : List Call) (world : World)
    (startMs endMs : Nat) (schedule : List (Pool.Turn session)) (acked : List ChangeEvent)
    (table id : String) (hcalls : ∀ call ∈ calls, call ≠ .newClient true)
    (hstart : Starts startMs world) (hkind : world.store.kind = .indexedDb)
    (hslots : world.store.Slots) (haccounted : Accounted table id acked world) :
    let pool : Pool session (Outcome CallResult) :=
      { world := world, threads := calls.map (Call.program config) }
    pool.Heeds (MintsWithin startMs endMs) schedule → pool.Meets (KeepsSlot table id) schedule →
      (pool.run schedule).world.store.kind = .indexedDb ∧
        (pool.run schedule).world.store.Slots ∧
        Accounted table id (pool.marked Sends.mark schedule ({ acked := acked } : Sends)).acked
          (pool.run schedule).world := by
  intro pool hmints hkeeps
  let era : Era := { actor := world.clock.actor, startMs := startMs, endMs := endMs }
  have hkept : Pool.Kept (upkeep era table id) pool (fun _ => none, { acked := acked }) := by
    refine ⟨⟨hstart.inv rfl, hkind, hslots, haccounted⟩, fun i program hprogram => ?_⟩
    obtain ⟨call, hcall, rfl⟩ := by simpa [pool] using hprogram
    refine ⟨{}, CallStage.leads_call config (hcalls call (List.mem_of_getElem? hcall)), ?_⟩
    exact ⟨⟨nofun, nofun, nofun, nofun⟩, rfl, nofun, nofun⟩
  have hlast := (hkept.run ((hmints.and hkeeps).watched _ _)).inv
  refine ⟨hlast.database, hlast.slots, ?_⟩
  have hsends : (pool.marked mark schedule (fun _ => none, { acked := acked })).2 =
      pool.marked Sends.mark schedule ({ acked := acked } : Sends) :=
    Pool.marked_part Prod.snd (fun _ _ _ _ _ => rfl) pool schedule _
  rw [← hsends]
  exact hlast.accounted

/-- The answers there are after a process, of which it found some. -/
def Process.acked (process : Process) (world : World) (acked : List ChangeEvent) :
    List ChangeEvent :=
  ((process.pool world).marked Sends.mark process.schedule ({ acked := acked } : Sends)).acked

def ackedBy (world : World) (acked : List ChangeEvent) : List Process → List ChangeEvent
  | [] => acked
  | process :: rest => ackedBy (process.run world) (process.acked world acked) rest

/-- All the answers the processes of a device got. -/
def Device.acked (device : Device) : List ChangeEvent := ackedBy device.first [] device.processes

/-- No process drops a write of the row. -/
def SparesRow (table id : String) (world : World) : List Process → Prop
  | [] => True
  | process :: rest =>
      (process.pool world).Meets (KeepsSlot table id) process.schedule ∧
        SparesRow table id (process.run world) rest

theorem enter_database (process : Process) {world : World} (hkind : world.store.kind = .indexedDb)
    (hslots : world.store.Slots) {table id : String} {acked : List ChangeEvent}
    (haccounted : Accounted table id acked world) :
    (process.enter world).store.kind = .indexedDb ∧ (process.enter world).store.Slots ∧
      Accounted table id acked (process.enter world) := by
  have hstore : (process.enter world).store = { world.store with detached := [] } := by
    simp only [Process.enter, hkind]
  rw [hstore]
  refine ⟨hkind, hslots.of_same rfl rfl, haccounted.of_queued rfl (fun _ h => h) ?_⟩
  intro entry hentry _
  rw [hstore]
  exact Or.inl hentry

/-- Process after process, the newest write of the row stays accounted for. -/
theorem Succeed.accounted {instant : Nat} {world : World} {processes : List Process}
    (h : Succeed instant world processes) {table id : String} (hstart : Starts instant world)
    (hkind : world.store.kind = .indexedDb) (hslots : world.store.Slots)
    {acked : List ChangeEvent} (haccounted : Accounted table id acked world)
    (hspares : SparesRow table id world processes) :
    Accounted table id (ackedBy world acked processes)
      (processes.foldl (fun world process => process.run world) world) := by
  induction processes generalizing instant world acked with
  | nil => exact haccounted
  | cons process rest ih =>
      obtain ⟨hafter, horder, hcalls, hmints, hrest⟩ := h
      obtain ⟨hkeeps, hspares⟩ := hspares
      obtain ⟨hkind, hslots, haccounted⟩ := enter_database process hkind hslots haccounted
      have henter := hstart.enter process hafter
      obtain ⟨hends, -⟩ := process_keeps_keys process.config process.calls (process.enter world)
        process.startMs process.endMs process.schedule horder hcalls henter hmints
      obtain ⟨hkind, hslots, haccounted⟩ := process_loses_no_write process.config process.calls
        (process.enter world) process.startMs process.endMs process.schedule acked table id hcalls
        henter hkind hslots haccounted hmints hkeeps
      exact ih hrest hends hkind hslots haccounted hspares

/-- A device with a database, whose processes run their calls in any interleaving:
while no delivery and no full queue drops a write of a row, its newest write is queued
as it was written, or the answer to it came. -/
theorem device_loses_no_write (device : Device) (table id : String)
    (hkind : device.kind = .indexedDb)
    (hsucceed : Succeed 0 device.first device.processes)
    (hspares : SparesRow table id device.first device.processes) :
    Accounted table id device.acked device.last := by
  have hempty : device.first.store.Empty := ⟨fun _ => rfl, rfl⟩
  refine hsucceed.accounted (first_starts device) hkind hempty.slots ?_ hspares
  intro write hnone
  cases hnone

/-- A process that sends what it finds in the database, and is answered. -/
def answered (now : Nat) : Process :=
  { resending now with schedule := turns 0 7 { now := now, response := .ok none } }

/-- A write while the service is out of reach, and a second one to its row. The next
process sends what is queued. -/
def editedTwice : Device :=
  { actor := "phone", processes := [writing "a" 5, writing "a" 6, answered 7] }

theorem editedTwice_loses_no_write :
    editedTwice.acked.map (·.writeKey) = [some "phone-6-0"] ∧ editedTwice.last.store.queue = [] ∧
      Accounted "todos" "a" editedTwice.acked editedTwice.last := by
  refine ⟨by decide, List.eq_nil_of_length_eq_zero (by decide),
    device_loses_no_write editedTwice "todos" "a" rfl ?_ ?_⟩
  · exact ⟨by decide, by decide, by simp [writing], by decide, by decide, by decide,
      by simp [writing], by decide, by decide, by decide, by simp [answered, resending],
      by decide, trivial⟩
  · exact ⟨by decide, by decide, by decide, trivial⟩

/-- A write, a flush that sends it, and an edit of its row that is only queued, while
the flush waits for its answer. -/
def editedInFlight (kind : StoreKind) : Device :=
  { actor := "phone"
    kind := kind
    processes :=
      [{ config := { send := some .custom }
         calls :=
           [.write "todos" "a" (some (.num 1)) {}, .flushQueue .emitOnly,
             .write "todos" "a" (some (.num 2)) { mode := some .localOnly }]
         startMs := 5
         endMs := 6
         schedule :=
           turns 0 9 { now := 5 } ++ turns 1 3 { now := 5 } ++ turns 2 8 { now := 5 } ++
             turns 1 3 { now := 5, response := .ok none } }] }

/-- The flush of a memory store reads the key of the entry it settles from the queue,
and settles the edit with the answer to the write before it: the edit is never sent. -/
theorem memory_store_loses_the_edit :
    ((editedInFlight .memory).last.lastQueued "todos" "a").map (·.key) = some "phone-5-1" ∧
      (editedInFlight .memory).last.store.queue.length = 0 ∧
      (editedInFlight .memory).acked.map (·.writeKey) = [some "phone-5-0"] ∧
      (editedInFlight .indexedDb).last.store.queue.map (·.key) = ["phone-5-1"] := by
  decide

end ZedSync.Js
