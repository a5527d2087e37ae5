import ZedSync.DeliveryRaces
import ZedSync.Js.Slots

/-!
The echo of an own write, delivered while a newer write to the row is around.
Acks are settled by write key, but a delivery only compares versions: an echo
committed above the newer write's version reads as a conflict, and both
resolutions give the row to the echo and drop the newer write. Beside that a
newer write is hit when it comes between the read of the echo and what the echo
then puts or retires.
-/

namespace ZedSync.Js

open Async

/-- An entry of the queue was there, or the action queues its write. -/
theorem perform_queue {action : Action} {input : Input} {world : World} {entry : QueueEntry}
    (h : entry ∈ (perform action input world).2.store.queue) :
    entry ∈ world.store.queue ∨ action.enqueues = some entry.toQueuedWrite := by
  have hsettles : ∀ options, entry ∈ (world.store.settleAck options).2.queue →
      entry ∈ world.store.queue := by
    intro options hkept
    obtain ⟨-, ⟨hqueue, -⟩ | ⟨index, -, -, hqueue, -⟩⟩ := world.store.settleAck_queue options
    · rwa [hqueue] at hkept
    · exact List.mem_of_mem_eraseIdx (hqueue ▸ hkept)
  cases action with
  | enqueue write => exact (Store.mem_enqueue h).imp_right fun hsame => congrArg some hsame.symm
  | retire seq => exact Or.inl (List.mem_of_mem_filter h)
  | settleAck options => exact Or.inl (hsettles options h)
  | settleEntry listed committedVersion => exact Or.inl (hsettles _ h)
  | dispatch _ | lock | renew | afterRenew _ _ | readHandle | stopBegin | releaseLease
  | settled =>
      rw [(Action.ofSession.sameClient (by trivial) input world).store] at h
      exact Or.inl h
  | _ => exact Or.inl h

/-- A row, beside the writes in its queue. -/
def queueShelf (table id : String) : Shelf session :=
  rowShelf table id
    (fun world =>
      (world.store.queue.filter fun entry => entry.sameRow table id).map (·.baseVersion))
    (fun action => (action.enqueues.filter fun write =>
      write.table = table ∧ write.id = id).map (·.baseVersion)) (by
      intro action input world version h
      obtain ⟨entry, hentry, rfl⟩ := List.mem_map.mp h
      obtain ⟨hentry, hrow⟩ := List.mem_filter.mp hentry
      rcases perform_queue hentry with hold | hnow
      · exact Or.inl (List.mem_map_of_mem (List.mem_filter.mpr ⟨hold, hrow⟩))
      · right
        simpa [hnow, Option.filter] using Store.sameRow_iff.mp hrow)

/-- The change carries the key of the write `older`, which was handed to `send`,
and `newer` is a later write to its row. -/
structure EchoBefore (older change : ChangeEvent) (newer : QueuedWrite) (world : World) :
    Prop where
  sent : older ∈ world.handed
  echo : older.table = change.table ∧ older.id = change.id ∧ older.writeKey = change.writeKey
  table : newer.table = change.table
  id : newer.id = change.id
  later : older.version < newer.baseVersion

/-- The action leaves a newer write as it was: in its row if it was there, and
queued if it was. -/
def EchoSpares (older change : ChangeEvent) (action : Action) (input : Input) (world : World) :
    Prop :=
  ∀ newer, EchoBefore older change newer world →
    (RowHolds newer world → RowHolds newer (perform action input world).2) ∧
      (Queued newer world → Queued newer (perform action input world).2)

/-- A step of a delivery that spares the versions above the older write. -/
theorem echoSpares_of_next {older change : ChangeEvent} {stage after : DeliveryStage}
    {action : Action} {input : Input} {world : World}
    (hnext : DeliveryStage.Next change stage action (perform action input world).1 after)
    (hspares : (queueShelf change.table change.id).Spares (older.version < ·) action world) :
    EchoSpares older change action input world := by
  rintro newer ⟨-, -, htable, hid, hlater⟩
  rcases DeliveryStage.next_cases hnext with ⟨-, rfl, -⟩ |
    ⟨existing, -, -, ⟨stored, hputs, -, -, hclean⟩, -⟩ | ⟨hpasses, -⟩
  · exact ⟨fun h => h, fun h => h⟩
  · refine ⟨?_, ?_⟩
    · exact fun hholds => absurd hholds (not_rowHolds hspares hputs hclean htable hid hlater)
    · rintro ⟨entry, hentry, hwrite⟩
      refine ⟨entry, ?_, hwrite⟩
      rw [(perform_puts hputs input world).1]
      exact hentry
  · refine ⟨?_, ?_⟩
    · rintro ⟨current, hcurrent, hrest⟩
      refine ⟨current, ?_, hrest⟩
      rw [Store.getRow, hpasses.rows]
      exact hcurrent
    · rintro ⟨entry, hentry, rfl⟩
      cases action with
      | retire seq =>
          refine ⟨entry, ?_, rfl⟩
          have hrow : entry.sameRow change.table change.id = true :=
            Store.sameRow_iff.mpr ⟨htable, hid⟩
          have hother : entry.seq ≠ seq := seq_ne hspares hentry hrow
            (List.mem_map_of_mem (List.mem_filter.mpr ⟨hentry, hrow⟩)) hlater
          simpa [perform, Store.retire] using ⟨hentry, hother⟩
      | _ => first | exact hpasses.elim | exact ⟨entry, hentry, rfl⟩

/-- In any interleaving of any calls, a delivery leaves the writes newer than `older` as they
are, as long as none of them stands where the delivery outruns the row it reads, and none
comes between that read and what the delivery does. -/
theorem echo_spares (config : ClientConfig) (calls : List Call) (world : World)
    (schedule : List (Pool.Turn session)) (thread : Nat) (older change : ChangeEvent)
    (hcall : calls[thread]? = some (.applyChange change)) :
    let pool : Pool session (Outcome CallResult) :=
      { world := world, threads := calls.map (Call.program config) }
    let shelf := queueShelf change.table change.id
    pool.Watched shelf.mark (shelf.Undisturbed change (older.version < ·) thread) schedule
      Since.start →
    pool.Along (fun pool turn => turn.1 = thread →
      Pool.Takes (EchoSpares older change) pool turn) schedule := by
  intro pool shelf hwatched
  have hprogram : pool.threads[thread]? = some (Call.program config (.applyChange change)) := by
    simp [pool, hcall]
  refine Shelf.spares_along shelf (shelf_next _) hprogram ?_ echoSpares_of_next hwatched
  exact (DeliveryStage.leads_applyChange config change).bind fun _ _ _ => trivial

end ZedSync.Js
