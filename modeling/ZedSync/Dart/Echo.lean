import ZedSync.DeliveryRaces
import ZedSync.Dart.Slots

/-!
The echo of an own write in the Dart client, delivered while a newer write to
the row is around. The client never asks `isOwnEcho`: an echo above the newer
write's version reads as a conflict and takes the row and the queue entry.
-/

namespace ZedSync.Dart

open Async

/-- An entry of the queue was there, or the action queues it. -/
theorem perform_queue {action : Action} {input : Input} {world : World} {entry : QueuedWrite}
    (h : entry ∈ (perform action input world).2.storage.queue) :
    entry ∈ world.storage.queue ∨ action.enqueues = some entry := by
  cases action with
  | enqueue write =>
      refine (List.mem_append.mp h).imp_right fun hnew => ?_
      rw [List.mem_singleton.mp hnew]
      rfl
  | retire retired => exact Or.inl (List.mem_of_mem_filter h)
  | settleAck write committedVersion =>
      left
      have hqueue : (world.storage.settleAck write committedVersion input.now).2.queue =
            world.storage.queue ∨
          (world.storage.settleAck write committedVersion input.now).2.queue =
            (world.storage.without write).queue :=
        MemoryStorage.settleAck_queue write committedVersion input.now
      rcases hqueue with hsame | htaken
      · exact hsame ▸ h
      · exact List.mem_of_mem_eraseP (htaken ▸ h)
  | _ => exact Or.inl h

/-- A row, beside the writes in its queue. -/
def queueShelf (table id : String) : Shelf device :=
  rowShelf table id
    (fun world =>
      (world.storage.queue.filter fun write => write.sameRow table id).map (·.baseVersion))
    (fun action => (action.enqueues.filter fun write =>
      write.table = table ∧ write.id = id).map (·.baseVersion)) (by
      intro action input world version h
      obtain ⟨entry, hentry, rfl⟩ := List.mem_map.mp h
      obtain ⟨hentry, hrow⟩ := List.mem_filter.mp hentry
      rcases perform_queue hentry with hold | hnow
      · exact Or.inl (List.mem_map_of_mem (List.mem_filter.mpr ⟨hold, hrow⟩))
      · right
        simpa [hnow, Option.filter] using (sameRow_iff entry table id).mp hrow)

/-- The change carries the key of the write `older`, which was handed to `send`,
and `newer` is a later write to its row. -/
structure EchoBefore (older change : ChangeEvent) (newer : QueuedWrite) (world : World) :
    Prop where
  sent : .sent older ∈ world.exchanges
  echo : older.table = change.table ∧ older.id = change.id ∧ older.writeKey = change.writeKey
  table : newer.table = change.table
  id : newer.id = change.id
  later : older.version < newer.baseVersion

/-- The action leaves a newer write as it was: in its row if it was there, and
queued if it was. -/
def EchoSpares (older change : ChangeEvent) (action : Action) (input : Input) (world : World) :
    Prop :=
  ∀ newer, EchoBefore older change newer world →
    (RowHolds newer world → RowHolds newer (perform action input world).2) ∧
      (newer ∈ world.storage.queue → newer ∈ (perform action input world).2.storage.queue)

/-- A step of a delivery that spares the versions above the older write. -/
theorem echoSpares_of_next {older change : ChangeEvent} {stage after : DeliveryStage}
    {action : Action} {input : Input} {world : World}
    (hnext : DeliveryStage.Next change stage action (perform action input world).1 after)
    (hspares : (queueShelf change.table change.id).Spares (older.version < ·) action world) :
    EchoSpares older change action input world := by
  rintro newer ⟨-, -, htable, hid, hlater⟩
  cases action with
  | putRow table id row =>
      refine ⟨?_, fun h => h⟩
      obtain ⟨stored, hputs, -, -, hclean⟩ :
          (Action.putRow table id row).Adopts change := by
        cases stage with
        | decided existing => exact hnext.2.1
        | _ => exact hnext.elim
      exact fun hholds => absurd hholds (not_rowHolds hspares hputs hclean htable hid hlater)
  | retire retired =>
      refine ⟨fun h => h, fun hentry => ?_⟩
      have hrow : newer.sameRow change.table change.id = true :=
        (sameRow_iff _ _ _).mpr ⟨htable, hid⟩
      have hother : newer.key ≠ retired.key := key_ne hspares hentry hrow
        (List.mem_map_of_mem (List.mem_filter.mpr ⟨hentry, hrow⟩)) hlater
      simpa [perform, MemoryStorage.retire] using ⟨hentry, hother⟩
  | requireCapability | observe | getRow | now | pending => exact ⟨fun h => h, fun h => h⟩
  | _ => cases stage <;> exact hnext.elim

/-- In any interleaving of any calls, a delivery leaves the writes newer than `older` as they
are, as long as none of them stands where the delivery outruns the row it reads, and none
comes between that read and what the delivery does. -/
theorem echo_spares (config : ClientConfig) (calls : List Call) (world : World)
    (schedule : List (Pool.Turn device)) (thread : Nat) (older change : ChangeEvent)
    (hcall : calls[thread]? = some (.applyChange change)) :
    let pool : Pool device (Outcome CallResult) :=
      { world := world, threads := calls.map (Call.program config) }
    let shelf := queueShelf change.table change.id
    pool.Watched shelf.mark (shelf.Undisturbed change (older.version < ·) thread) schedule
      Since.start →
    pool.Along (fun pool turn => turn.1 = thread →
      Pool.Takes (EchoSpares older change) pool turn) schedule := by
  intro pool shelf hwatched
  have hprogram : pool.threads[thread]? = some (Call.program config (.applyChange change)) := by
    simp [pool, hcall]
  refine Shelf.spares_along shelf (shelf_next _) hprogram ?_ echoSpares_of_next hwatched
  exact (DeliveryStage.leads_applyChange config change).bind fun _ _ _ => trivial

end ZedSync.Dart
