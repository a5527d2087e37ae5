import ZedSync.Dart.Settlement
import ZedSync.Js.Settlement

/-!
When an exact acknowledgement settles: in the three cores, in the stores of the
two clients, and over their later flushes.
-/

namespace ZedSync

/-- An exact acknowledgement settles its write, empties its slot and is not asked
for again exactly when the committed version is not below the row's. -/
theorem exact_acknowledgement_settles_iff (localRow : LocalRow) (settlingKey : String)
    (baseVersion : Hlc) (ack : WriteAck) :
    (∀ current : Rust.QueuedWrite,
      ExactAck current.id current.key settlingKey localRow baseVersion ack.id →
      (Settles (Rust.settleQueuedAck localRow current settlingKey baseVersion ack) current.key
          settlingKey localRow.dirty ↔
        Rust.cmp localRow.version ack.committedVersion ≠ .gt)) ∧
    (∀ current : Js.QueuedWrite,
      ExactAck current.id current.key settlingKey localRow baseVersion ack.id →
      (Settles (Js.settleQueuedAck localRow current settlingKey baseVersion ack) current.key
          settlingKey localRow.dirty ↔
        ¬ ack.committedVersion < localRow.version)) ∧
    (∀ currentId currentKey,
      ExactAck currentId currentKey settlingKey localRow baseVersion ack.id →
      (Settles (Dart.settleQueuedAck localRow currentId currentKey settlingKey baseVersion
          ack.id ack.committedVersion) currentKey settlingKey localRow.dirty ↔
        ¬ ack.committedVersion < localRow.version)) ∧
    (∀ (store : Js.Store) options index entry stored,
      Js.SettlesSlot store options index entry stored →
      (store.SlotGone (store.settleAck options).2 index options.table options.id ↔
        ¬ options.committedVersion < stored.rowMeta.version)) ∧
    (∀ (storage : Dart.MemoryStorage) write index newest stored committed now,
      Dart.SettlesNewest storage write index newest stored →
      (storage.SlotGone (storage.settleAck write committed now).2 index write.table write.id ↔
        ¬ committed < stored.version)) ∧
    (∀ (config : Js.ClientConfig) policy entry world committed first second rest,
      config.send = some .custom → Js.LoneSlot entry world →
      (∀ inputs ∈ first :: second :: rest, Js.Answers committed inputs) →
      ((Js.flushes config policy (first :: second :: rest) world).handed =
          world.handed ++ [entry.change] ↔
        ¬ committed.getD entry.baseVersion < entry.baseVersion)) ∧
    (∀ (config : Dart.ClientConfig) write world committed first second rest,
      config.hasSend = true → Dart.LoneWrite write world →
      (∀ inputs ∈ first :: second :: rest, Dart.Answers committed inputs) →
      ((Dart.flushes config (first :: second :: rest) world).sent =
          world.sent ++ [write.change] ↔
        ¬ committed < write.baseVersion)) :=
  ⟨fun _ => Rust.exact_ack_settles_iff, fun _ => Js.exact_ack_settles_iff,
    fun _ _ => Dart.exact_ack_settles_iff, fun _ _ _ _ _ => Js.Store.slotGone_iff,
    fun _ _ _ _ _ committed now => Dart.MemoryStorage.slotGone_iff committed now,
    fun _ policy entry _ committed _ _ _ hsend hlone =>
      (Js.loneSlotSender policy entry committed hsend).sent_once_iff hlone,
    fun _ write _ committed _ _ _ hsend hlone =>
      (Dart.loneWriteSender write committed hsend).sent_once_iff hlone⟩

/-- A dirty row with its write queued. -/
def editedRow : LocalRow :=
  { version := { wallMs := 7, counter := 0, actor := "device" }, dirty := true }

def editSlot : Js.QueueEntry :=
  { table := "todos", id := "a", op := .upsert, payload := some (.str "edit"),
    baseVersion := editedRow.version, key := "device-7-0", seq := 1 }

/-- The row and its slot in a browser store. -/
def editQueued : Js.World :=
  { store :=
      Js.Store.putRow { queue := [editSlot], seq := 1 } "todos" "a" (some (.str "edit"))
        { version := editedRow.version, dirty := true, syncedAtMs := none }
    clock := Clock.fresh "device" }

/-- The server commits the write at a reading of its own clock. -/
def committedAt (wallMs : Nat) : WriteAck :=
  { id := "a", committedVersion := { wallMs := wallMs, counter := 0, actor := "server" } }

/-- What the outside answers a flush that sends one change. -/
def answering (ack : WriteAck) : List Js.Input :=
  [{}, {}, {}, { response := .ok (some ack.committedVersion) }, {}]

/-- The server's clock is ahead of the device. -/
theorem ack_ahead_settles :
    Settles
      (Js.settleQueuedAck editedRow editSlot.toQueuedWrite "device-7-0" editedRow.version
        (committedAt 9)) "device-7-0" "device-7-0" true ∧
    (Js.flushes { send := some .custom } .throwOnly
      [answering (committedAt 9), answering (committedAt 9)] editQueued).handed =
        [editSlot.change] := by
  obtain ⟨-, hcore, -, -, -, hflushes, -⟩ :=
    exact_acknowledgement_settles_iff editedRow "device-7-0" editedRow.version (committedAt 9)
  refine ⟨(hcore editSlot.toQueuedWrite ⟨rfl, rfl, rfl⟩).mpr (by decide), ?_⟩
  have hlone : Js.LoneSlot editSlot editQueued := ⟨rfl, rfl, _, rfl, rfl⟩
  exact (hflushes { send := some .custom } .throwOnly editSlot editQueued
    (some (committedAt 9).committedVersion) _ _ [] rfl hlone
    (by simp [answering, Js.Answers])).mpr (by decide)

/-- The server's clock is behind the device: no port retires the slot, and the
client sends the write in every flush. -/
theorem ack_behind_never_settles :
    (Rust.settleQueuedAck editedRow
      { table := "todos", id := "a", op := .upsert, baseVersion := editedRow.version,
        key := "device-7-0" } "device-7-0" editedRow.version
      (committedAt 5)).retireCurrentSlot = false ∧
    (Js.settleQueuedAck editedRow editSlot.toQueuedWrite "device-7-0" editedRow.version
      (committedAt 5)).retireCurrentSlot = false ∧
    (Dart.settleQueuedAck editedRow "a" "device-7-0" "device-7-0" editedRow.version
      (committedAt 5).id (committedAt 5).committedVersion).retireCurrentSlot = false ∧
    let after := Js.flushes { send := some .custom } .throwOnly
      [answering (committedAt 5), answering (committedAt 5)] editQueued
    after.handed = [editSlot.change, editSlot.change] ∧ after.store.pending = [editSlot] := by
  exact ⟨by decide, by decide, by decide, rfl, rfl⟩

end ZedSync
