import ZedSync.Js.Client
import ZedSync.Lib.Retry
import ZedSync.WriteLifecycle

/-!
What an exact acknowledgement leaves in a browser store, and what the later
flushes send. A settlement below the row's version is refused and changes
nothing, so every later flush lists the same slot, gets the same answer and
leaves it there.
-/

namespace ZedSync.Js

open Async

/-- The acknowledgement is for the write the slot at `index` holds, and the row
is still at that write's base version. -/
structure SettlesSlot (store : Store) (options : SettleOptions) (index : Nat)
    (entry : QueueEntry) (stored : StoredRow) : Prop where
  found : store.queue.findIdx? (·.seq = options.seq) = some index
  slot : store.queue[index]? = some entry
  row : store.getRow options.table options.id = some stored
  exact : ExactAck entry.id entry.key options.writeKey stored.localRow options.baseVersion
    options.id

namespace Store

/-- The slot at `index` left the queue, and the row is clean. -/
def SlotGone (before after : Store) (index : Nat) (table id : String) : Prop :=
  after.pending = before.pending.eraseIdx index ∧
    ∃ stored, after.getRow table id = some stored ∧ stored.rowMeta.dirty = false

theorem settleAck_exact {store : Store} {options : SettleOptions} {index : Nat}
    {entry : QueueEntry} {stored : StoredRow}
    (h : SettlesSlot store options index entry stored) :
    (store.settleAck options).2 =
      if options.committedVersion < stored.rowMeta.version then store
      else
        { store with
          queue := store.queue.eraseIdx index
          detached := entry :: store.detached }.setRow options.table options.id
          { row := stored.row
            rowMeta :=
              { version := options.committedVersion, dirty := false,
                syncedAtMs := some options.atMs } } := by
  have hslot : store.queue.getD index default = entry := by
    simp [List.getD_eq_getElem?_getD, h.slot]
  have hsettle : settleQueuedAck
      { version := stored.rowMeta.version, dirty := stored.rowMeta.dirty } entry.toQueuedWrite
      options.writeKey options.baseVersion
      { id := options.id, committedVersion := options.committedVersion } =
      (onAck stored.localRow
        { id := options.id, committedVersion := options.committedVersion }).settlement :=
    settleQueuedAck_exact h.exact
  simp only [settleAck, h.found, h.row, hslot, hsettle, onAck, gt_iff_lt, compareHlc_pos_iff]
  rw [StoredRow.localRow]
  split <;> rfl

/-- An exact acknowledgement empties its slot exactly when it is not below the row. -/
theorem slotGone_iff {store : Store} {options : SettleOptions} {index : Nat}
    {entry : QueueEntry} {stored : StoredRow}
    (h : SettlesSlot store options index entry stored) :
    store.SlotGone (store.settleAck options).2 index options.table options.id ↔
      ¬ options.committedVersion < stored.rowMeta.version := by
  rw [settleAck_exact h]
  split
  · rename_i hbelow
    refine ⟨fun hgone => ?_, fun hnot => absurd hbelow hnot⟩
    obtain ⟨hlt, -⟩ := List.getElem?_eq_some_iff.mp h.slot
    have hlength := congrArg List.length hgone.1
    rw [pending, List.length_eraseIdx_of_lt hlt] at hlength
    omega
  · rename_i hnot
    exact ⟨fun _ => hnot, fun _ => ⟨rfl, _, getRow_setRow_self _ _ _ _, rfl⟩⟩

end Store

/-- One slot is queued, the client may write, and the row is at the slot's base. -/
structure LoneSlot (entry : QueueEntry) (world : World) : Prop where
  queue : world.store.queue = [entry]
  admits : world.refusal .canWrite = none
  row : ∃ stored, world.store.getRow entry.table entry.id = some stored ∧
    stored.rowMeta.version = entry.baseVersion

/-- A flush alone. -/
def flush (config : ClientConfig) (policy : ErrorPolicy) (world : World)
    (inputs : List Input) : World :=
  ((flushQueue config policy).run inputs world).2

/-- One flush after another. -/
def flushes (config : ClientConfig) (policy : ErrorPolicy) (rounds : List (List Input))
    (world : World) : World :=
  Run.final (flush config policy) world rounds

/-- The request of a lone slot is answered with `committed`. -/
def Answers (committed : Option Hlc) (inputs : List Input) : Prop :=
  (inputs.tail.tail.tail.headD {}).response = .ok committed

theorem LoneSlot.deref {entry : QueueEntry} {world : World} (h : LoneSlot entry world) :
    world.store.deref entry = entry := by
  cases hkind : world.store.kind <;> simp [Store.deref, hkind, h.queue]

theorem LoneSlot.settles {entry : QueueEntry} {world : World} (h : LoneSlot entry world)
    (committed : Option Hlc) (now : Nat) :
    ∃ stored, stored.rowMeta.version = entry.baseVersion ∧
      SettlesSlot world.store (.ofEntry entry committed now) 0 entry stored := by
  obtain ⟨stored, hrow, hversion⟩ := h.row
  refine ⟨stored, hversion, ?_, ?_, hrow, rfl, rfl, hversion⟩
  · simp [h.queue, SettleOptions.ofEntry]
  · simp [h.queue]

/-- A flush of a lone slot hands its change to `send` and settles the answer. -/
theorem flush_lone {config : ClientConfig} (policy : ErrorPolicy) {entry : QueueEntry}
    {world : World} (hsend : config.send = some .custom) (h : LoneSlot entry world)
    {committed : Option Hlc} {inputs : List Input} (hanswer : Answers committed inputs) :
    ∃ now, flush config policy world inputs =
      { world with
        handed := world.handed ++ [entry.change]
        store := (world.store.settleAck (.ofEntry entry committed now)).2 } := by
  refine ⟨(inputs.tail.tail.tail.tail.headD {}).now, ?_⟩
  simp only [flush, flushQueue, requireCapability, act, Prog.call_bind, Prog.ret_bind, Prog.run,
    perform, h.admits, Store.pending, h.queue, flushEach, flushEach.sendEntry, hsend, transmit,
    transmit.awaitResponse, h.deref]
  rw [Answers] at hanswer
  simp only [hanswer, Prog.pure_eq, Prog.ret_bind, Prog.run, perform, World.settle, h.deref]

theorem flush_empty {config : ClientConfig} (policy : ErrorPolicy) {world : World}
    (hqueue : world.store.queue = []) (hadmits : world.refusal .canWrite = none)
    (inputs : List Input) : flush config policy world inputs = world := by
  simp only [flush, flushQueue, requireCapability, act, Prog.call_bind, Prog.ret_bind, Prog.run,
    perform, hadmits, Store.pending, hqueue, flushEach, Prog.pure_eq]

/-- The flushes of a lone slot send its change until an answer is not below its base. -/
def loneSlotSender {config : ClientConfig} (policy : ErrorPolicy) (entry : QueueEntry)
    (committed : Option Hlc) (hsend : config.send = some .custom) :
    Retry.Sender (flush config policy) World.handed entry.change (Answers committed)
      (¬ committed.getD entry.baseVersion < entry.baseVersion) where
  waiting := LoneSlot entry
  idle world := world.store.queue = [] ∧ world.refusal .canWrite = none
  send h hanswer := by
    obtain ⟨now, hflush⟩ := flush_lone policy hsend h hanswer
    rw [hflush]
  settled := by
    intro world inputs h hanswer hsettles
    obtain ⟨now, hflush⟩ := flush_lone policy hsend h hanswer
    obtain ⟨stored, hversion, hslot⟩ := h.settles committed now
    have hgone := (Store.slotGone_iff hslot).mpr (by rw [hversion]; exact hsettles)
    have hqueue : (world.store.settleAck (.ofEntry entry committed now)).2.queue = [] := by
      simpa [Store.pending, h.queue] using hgone.1
    rw [hflush]
    exact ⟨hqueue, h.admits⟩
  kept := by
    intro world inputs h hanswer hbelow
    obtain ⟨now, hflush⟩ := flush_lone policy hsend h hanswer
    obtain ⟨stored, hversion, hslot⟩ := h.settles committed now
    have hkept : (world.store.settleAck (.ofEntry entry committed now)).2 = world.store := by
      rw [Store.settleAck_exact hslot, hversion]
      exact if_pos (not_not.mp hbelow)
    rw [hflush, hkept]
    exact ⟨h.queue, h.admits, h.row⟩
  rest h := flush_empty policy h.1 h.2 _

end ZedSync.Js
