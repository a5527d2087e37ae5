import ZedSync.Dart.Client
import ZedSync.Lib.Retry
import ZedSync.WriteLifecycle

/-!
What an exact acknowledgement leaves in the Dart storage, and what the later
flushes send: as in the browser, an answer below the row's version is refused
and changes nothing. Here the slot is the newest entry of its row.
-/

namespace ZedSync.Dart

open Async

/-- The acknowledgement is for the newest entry of its row, at `index`, and the
row is still at that write's base version. -/
structure SettlesNewest (storage : MemoryStorage) (write : QueuedWrite) (index : Nat)
    (newest : QueuedWrite) (stored : StoredRow) : Prop where
  found : storage.indexOf write = some index
  current : storage.newestFor write.table write.id = some newest
  row : storage.getRow write.table write.id = some stored
  exact : ExactAck newest.id newest.key write.key stored.localRow write.baseVersion write.id

namespace MemoryStorage

/-- The entry at `index` left the queue, and the row is clean. -/
def SlotGone (before after : MemoryStorage) (index : Nat) (table id : String) : Prop :=
  after.pending = before.pending.eraseIdx index ∧
    ∃ stored, after.getRow table id = some stored ∧ stored.dirty = false

theorem settleAck_exact {storage : MemoryStorage} {write : QueuedWrite} {index : Nat}
    {newest : QueuedWrite} {stored : StoredRow} (committed : Hlc) (now : Nat)
    (h : SettlesNewest storage write index newest stored) :
    (storage.settleAck write committed now).2 =
      if committed < stored.version then storage
      else
        { storage with queue := storage.queue.eraseIdx index }.putRow write.table write.id
          { row := stored.row, version := committed, dirty := false, syncedAtMs := some now } := by
  have hkey : newest.key = write.key := h.exact.key
  have hbase : stored.version = write.baseVersion := h.exact.version
  rw [settleAck_eq, without_eq, h.row, h.current, h.found]
  by_cases hbelow : committed < stored.version
  · simp [hkey, if_pos hbelow, not_le.mpr hbelow]
  · have hclean : stored.version = write.baseVersion ∧ stored.version ≤ committed :=
      ⟨hbase, not_lt.mp hbelow⟩
    simp [hkey, if_neg hbelow, if_pos hclean, StoredRow.settled]

/-- An exact acknowledgement empties its slot exactly when it is not below the row. -/
theorem slotGone_iff {storage : MemoryStorage} {write : QueuedWrite} {index : Nat}
    {newest : QueuedWrite} {stored : StoredRow} (committed : Hlc) (now : Nat)
    (h : SettlesNewest storage write index newest stored) :
    storage.SlotGone (storage.settleAck write committed now).2 index write.table write.id ↔
      ¬ committed < stored.version := by
  rw [settleAck_exact committed now h]
  split
  · rename_i hbelow
    refine ⟨fun hgone => ?_, fun hnot => absurd hbelow hnot⟩
    obtain ⟨hlt, -⟩ := List.findIdx?_eq_some_iff_getElem.mp h.found
    have hlength := congrArg List.length hgone.1
    rw [pending, List.length_eraseIdx_of_lt hlt] at hlength
    omega
  · rename_i hnot
    exact ⟨fun _ => hnot, fun _ => ⟨rfl, _, getRow_putRow_self _ _ _ _, rfl⟩⟩

end MemoryStorage

/-- One write is queued, the client may write, and the row is at the write's base. -/
structure LoneWrite (write : QueuedWrite) (world : World) : Prop where
  queue : world.storage.queue = [write]
  admits : world.refusal .canWrite = none
  row : ∃ stored, world.storage.getRow write.table write.id = some stored ∧
    stored.version = write.baseVersion

/-- A flush alone. -/
def flush (config : ClientConfig) (world : World) (inputs : List Input) : World :=
  ((flushQueue config).run inputs world).2

/-- One flush after another. -/
def flushes (config : ClientConfig) (rounds : List (List Input)) (world : World) : World :=
  Run.final (flush config) world rounds

/-- The changes handed to `send` so far. -/
def World.sent (world : World) : List ChangeEvent :=
  world.exchanges.filterMap fun
    | .sent change => some change
    | .acked _ => none

/-- The request of a lone write is answered with `committed`. -/
def Answers (committed : Hlc) (inputs : List Input) : Prop :=
  (inputs.tail.tail.tail.headD {}).response = .committed committed

theorem LoneWrite.settles {write : QueuedWrite} {world : World} (h : LoneWrite write world) :
    ∃ stored, stored.version = write.baseVersion ∧
      SettlesNewest world.storage write 0 write stored := by
  obtain ⟨stored, hrow, hversion⟩ := h.row
  refine ⟨stored, hversion, ?_, ?_, hrow, rfl, rfl, hversion⟩
  · simp [MemoryStorage.indexOf, h.queue]
  · simp [MemoryStorage.newestFor, QueuedWrite.sameRow, h.queue]

/-- A flush of a lone write sends its change and settles the answer. -/
theorem flush_lone {config : ClientConfig} {write : QueuedWrite} {world : World}
    (hsend : config.hasSend = true) (h : LoneWrite write world) {committed : Hlc}
    {inputs : List Input} (hanswer : Answers committed inputs) :
    ∃ now, flush config world inputs =
      { world with
        exchanges := world.exchanges ++ [.sent write.change] ++ [.acked write]
        storage := (world.storage.settleAck write committed now).2 } := by
  refine ⟨(inputs.tail.tail.tail.tail.headD {}).now, ?_⟩
  simp only [flush, flushQueue, requireCapability, act, Prog.call_bind, Prog.ret_bind, Prog.run,
    perform, h.admits, MemoryStorage.pending, h.queue, flushEach, doSend, hsend, if_true]
  rw [Answers] at hanswer
  simp only [hanswer, Prog.pure_eq, Prog.ret_bind, Prog.run, perform]

theorem flush_empty {config : ClientConfig} {world : World}
    (hqueue : world.storage.queue = []) (hadmits : world.refusal .canWrite = none)
    (inputs : List Input) : flush config world inputs = world := by
  simp only [flush, flushQueue, requireCapability, act, Prog.call_bind, Prog.ret_bind, Prog.run,
    perform, hadmits, MemoryStorage.pending, hqueue, flushEach, Prog.pure_eq]

/-- The flushes of a lone write send its change until an answer is not below its base. -/
def loneWriteSender {config : ClientConfig} (write : QueuedWrite) (committed : Hlc)
    (hsend : config.hasSend = true) :
    Retry.Sender (flush config) World.sent write.change (Answers committed)
      (¬ committed < write.baseVersion) where
  waiting := LoneWrite write
  idle world := world.storage.queue = [] ∧ world.refusal .canWrite = none
  send h hanswer := by
    obtain ⟨now, hflush⟩ := flush_lone hsend h hanswer
    rw [hflush]
    simp [World.sent]
  settled := by
    intro world inputs h hanswer hsettles
    obtain ⟨now, hflush⟩ := flush_lone hsend h hanswer
    obtain ⟨stored, hversion, hslot⟩ := h.settles
    have hgone := (MemoryStorage.slotGone_iff committed now hslot).mpr
      (by rw [hversion]; exact hsettles)
    have hqueue : (world.storage.settleAck write committed now).2.queue = [] := by
      simpa [MemoryStorage.pending, h.queue] using hgone.1
    rw [hflush]
    exact ⟨hqueue, h.admits⟩
  kept := by
    intro world inputs h hanswer hbelow
    obtain ⟨now, hflush⟩ := flush_lone hsend h hanswer
    obtain ⟨stored, hversion, hslot⟩ := h.settles
    have hkept : (world.storage.settleAck write committed now).2 = world.storage := by
      rw [MemoryStorage.settleAck_exact committed now hslot, hversion]
      exact if_pos (not_not.mp hbelow)
    rw [hflush, hkept]
    exact ⟨h.queue, h.admits, h.row⟩
  rest h := flush_empty h.1 h.2 _

end ZedSync.Dart
