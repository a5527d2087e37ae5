import ZedSync.Core

/-!
The in-memory storage of the Dart package
(`dart/zed_sync/lib/src/memory_storage.dart`): rows under a joined key, and an
ordered queue with one entry per write. Nothing is coalesced.
-/

namespace ZedSync.Dart

structure StoredRow where
  row : Option Json
  version : Hlc
  dirty : Bool
  syncedAtMs : Option Nat
  deriving Repr, Inhabited

structure StoredAckSettlement where
  retired : Bool
  adopted : Bool
  deriving DecidableEq, Repr

/-- The stored row as the core sees it. -/
def StoredRow.localRow (stored : StoredRow) : LocalRow :=
  { version := stored.version, dirty := stored.dirty }

/-- The row after an acknowledgement cleaned it. -/
def StoredRow.settled (stored : StoredRow) (committedVersion : Hlc) (now : Nat) : StoredRow :=
  { row := stored.row, version := committedVersion, dirty := false, syncedAtMs := some now }

def QueuedWrite.sameRow (write : QueuedWrite) (table id : String) : Bool :=
  write.table == table && write.id == id

/-- The two are one entry of the queue, as `settleAck` looks for it. -/
def QueuedWrite.sameEntry (entry write : QueuedWrite) : Bool :=
  entry.table == write.table && entry.id == write.id && entry.key == write.key

theorem sameRow_iff (write : QueuedWrite) (table id : String) :
    write.sameRow table id = true ↔ write.table = table ∧ write.id = id := by
  simp [QueuedWrite.sameRow]

structure MemoryStorage where
  rows : String → Option StoredRow := fun _ => none
  queue : List QueuedWrite := []

instance : Inhabited MemoryStorage := ⟨{}⟩

/-- The joined row key; the separator is a blank. -/
def rowKey (table id : String) : String := table ++ " " ++ id

namespace MemoryStorage

def getRow (storage : MemoryStorage) (table id : String) : Option StoredRow :=
  storage.rows (rowKey table id)

def putRow (storage : MemoryStorage) (table id : String) (row : StoredRow) : MemoryStorage :=
  { storage with
    rows := fun key => if key = rowKey table id then some row else storage.rows key }

def enqueue (storage : MemoryStorage) (write : QueuedWrite) : MemoryStorage :=
  { storage with queue := storage.queue ++ [write] }

def pending (storage : MemoryStorage) : List QueuedWrite := storage.queue

/-- Every entry under the write's key leaves the queue. -/
def retire (storage : MemoryStorage) (write : QueuedWrite) : MemoryStorage :=
  { storage with queue := storage.queue.filter (·.key ≠ write.key) }

/-- The newest entry of a row, `lastWhere`. -/
def newestFor (storage : MemoryStorage) (table id : String) : Option QueuedWrite :=
  storage.queue.reverse.find? (QueuedWrite.sameRow · table id)

/-- The entry `write` identifies. -/
def indexOf (storage : MemoryStorage) (write : QueuedWrite) : Option Nat :=
  storage.queue.findIdx? fun entry =>
    entry.table == write.table && entry.id == write.id && entry.key == write.key

/-- Retire the write's entry, and clean the row when the entry is the newest of
its row and the row is still at the write's version. A superseded historical
entry is retired by its own key while the newest stays. -/
def settleAck (storage : MemoryStorage) (write : QueuedWrite) (committedVersion : Hlc)
    (now : Nat) : StoredAckSettlement × MemoryStorage :=
  match storage.indexOf write, storage.getRow write.table write.id,
      storage.newestFor write.table write.id with
  | some index, some current, some currentQueued =>
      let settlement := settleQueuedAck current.localRow currentQueued.id currentQueued.key
        write.key write.baseVersion write.id committedVersion
      let removed := { storage with queue := storage.queue.eraseIdx index }
      if !settlement.retireCurrentSlot then
        if currentQueued.key ≠ write.key then ({ retired := true, adopted := false }, removed)
        else ({ retired := false, adopted := false }, storage)
      else
        match settlement.adopt with
        | none => ({ retired := true, adopted := false }, removed)
        | some adopted =>
            ({ retired := true, adopted := true },
              removed.putRow write.table write.id
                { row := current.row, version := adopted, dirty := false,
                  syncedAtMs := some now })
  | _, _, _ => ({ retired := false, adopted := false }, storage)

theorem getRow_putRow (storage : MemoryStorage) (table id table' id' : String)
    (row : StoredRow) :
    (storage.putRow table id row).getRow table' id' =
      if rowKey table' id' = rowKey table id then some row else storage.getRow table' id' :=
  rfl

@[simp] theorem getRow_putRow_self (storage : MemoryStorage) (table id : String)
    (row : StoredRow) : (storage.putRow table id row).getRow table id = some row := by
  simp [getRow_putRow]

@[simp] theorem enqueue_rows (storage : MemoryStorage) (write : QueuedWrite) :
    (storage.enqueue write).rows = storage.rows := rfl

/-- The storage without the first entry that `write` identifies. -/
def without (storage : MemoryStorage) (write : QueuedWrite) : MemoryStorage :=
  { storage with queue := storage.queue.eraseP (QueuedWrite.sameEntry · write) }

theorem without_eq (storage : MemoryStorage) (write : QueuedWrite) :
    storage.without write =
      match storage.indexOf write with
      | some index => { storage with queue := storage.queue.eraseIdx index }
      | none => storage := by
  have hindex : storage.queue.findIdx? (QueuedWrite.sameEntry · write) =
      storage.indexOf write := rfl
  rw [without, List.eraseP_eq_eraseIdx, hindex]
  cases storage.indexOf write with
  | none => rfl
  | some index => rfl

/-- The newest entry of a row is one of its entries. -/
theorem newestFor_some {storage : MemoryStorage} {table id : String} {newest : QueuedWrite}
    (h : storage.newestFor table id = some newest) :
    newest ∈ storage.queue ∧ newest.table = table ∧ newest.id = id := by
  have hmem := List.mem_reverse.mp (List.mem_of_find?_eq_some h)
  have hsame := List.find?_some h
  exact ⟨hmem, (sameRow_iff newest table id).mp hsame⟩

/-- An entry is found under the write's key when the newest of its row has it. -/
theorem indexOf_of_newest {storage : MemoryStorage} {write newest : QueuedWrite}
    (h : storage.newestFor write.table write.id = some newest) (hkey : newest.key = write.key) :
    ∃ index, storage.indexOf write = some index := by
  obtain ⟨hmem, htable, hid⟩ := newestFor_some h
  cases hindex : storage.indexOf write with
  | some index => exact ⟨index, rfl⟩
  | none =>
      have hnone := List.findIdx?_eq_none_iff.mp hindex newest hmem
      simp [htable, hid, hkey] at hnone

/-- The settlement for an entry under the acknowledged key, by the versions alone. -/
theorem settleQueuedAck_of_key (localRow : LocalRow) (id key : String)
    (baseVersion committedVersion : Hlc) :
    settleQueuedAck localRow id key key baseVersion id committedVersion =
      if localRow.version = baseVersion ∧ localRow.version ≤ committedVersion then
        { adopt := some committedVersion, retireCurrentSlot := true }
      else { adopt := none, retireCurrentSlot := false } := by
  have hbase : compareTo localRow.version baseVersion = 0 ↔ localRow.version = baseVersion := by
    rw [compareTo_eq_compareHlc, Js.compareHlc_zero_iff]
  have hadopt : onAck localRow committedVersion =
      if localRow.version ≤ committedVersion then some committedVersion else none := by
    simp only [onAck, compareTo_eq_compareHlc, gt_iff_lt, Js.compareHlc_pos_iff]
    by_cases hle : localRow.version ≤ committedVersion
    · rw [if_neg (not_lt.mpr hle), if_pos hle]
    · rw [if_pos (not_le.mp hle), if_neg hle]
  by_cases hsame : localRow.version = baseVersion
  · by_cases hle : localRow.version ≤ committedVersion
    · rw [if_pos ⟨hsame, hle⟩]
      simp [settleQueuedAck, hbase.mpr hsame, hadopt, hle]
    · rw [if_neg fun hboth => hle hboth.2]
      simp [settleQueuedAck, hbase.mpr hsame, hadopt, hle]
  · rw [if_neg fun hboth => hsame hboth.1]
    simp [settleQueuedAck, hbase, hsame]

/-- A settlement by what it finds: the row, and the newest entry of the row. Where that
entry is another write's, the acknowledged one leaves the queue; where it is the
write's own, it leaves the queue and the row becomes clean, or nothing happens. -/
theorem settleAck_eq (storage : MemoryStorage) (write : QueuedWrite) (committedVersion : Hlc)
    (now : Nat) :
    (storage.settleAck write committedVersion now).2 =
      match storage.getRow write.table write.id, storage.newestFor write.table write.id with
      | some current, some newest =>
          if newest.key ≠ write.key then storage.without write
          else if current.version = write.baseVersion ∧ current.version ≤ committedVersion then
            (storage.without write).putRow write.table write.id
              (current.settled committedVersion now)
          else storage
      | _, _ => storage := by
  cases hcurrent : storage.getRow write.table write.id with
  | none => simp [settleAck, hcurrent]
  | some current =>
      cases hnewest : storage.newestFor write.table write.id with
      | none => simp [settleAck, hnewest]
      | some newest =>
          obtain ⟨-, -, hid⟩ := newestFor_some hnewest
          by_cases hkey : newest.key = write.key
          · obtain ⟨index, hindex⟩ := indexOf_of_newest hnewest hkey
            have hsettle := settleQueuedAck_of_key current.localRow write.id write.key
              write.baseVersion committedVersion
            by_cases hclean : current.version = write.baseVersion ∧
                current.version ≤ committedVersion
            · have hretires := hsettle.trans (if_pos hclean)
              simp [settleAck, hindex, hcurrent, hnewest, hid, hkey, hretires, without_eq,
                if_pos hclean, StoredRow.settled]
            · have hkeeps := hsettle.trans (if_neg hclean)
              simp [settleAck, hindex, hcurrent, hnewest, hid, hkey, hkeeps, if_neg hclean]
          · cases hindex : storage.indexOf write with
            | none => simp [settleAck, hindex, hkey, without_eq]
            | some index =>
                simp [settleAck, hindex, hcurrent, hnewest, hkey, without_eq, settleQueuedAck]

/-- The acknowledgement cleans the row: the write is the newest one queued for it, and
the row is still at the write's base version and not past the committed one. -/
structure Cleans (storage : MemoryStorage) (write : QueuedWrite) (committedVersion : Hlc)
    (current : StoredRow) : Prop where
  row : storage.getRow write.table write.id = some current
  newest : ∃ newest, storage.newestFor write.table write.id = some newest ∧
    newest.key = write.key
  base : current.version = write.baseVersion
  reached : current.version ≤ committedVersion

theorem settleAck_of_cleans {storage : MemoryStorage} {write : QueuedWrite}
    {committedVersion : Hlc} {current : StoredRow} (now : Nat)
    (h : storage.Cleans write committedVersion current) :
    (storage.settleAck write committedVersion now).2 =
      (storage.without write).putRow write.table write.id
        (current.settled committedVersion now) := by
  obtain ⟨newest, hnewest, hkey⟩ := h.newest
  simp [settleAck_eq, h.row, hnewest, hkey, ← h.base, h.reached]

/-- An acknowledgement that does not clean the row takes an entry out at most. -/
theorem settleAck_of_not_cleans {storage : MemoryStorage} {write : QueuedWrite}
    {committedVersion : Hlc} (now : Nat)
    (h : ∀ current, ¬ storage.Cleans write committedVersion current) :
    (storage.settleAck write committedVersion now).2 = storage ∨
      (storage.settleAck write committedVersion now).2 = storage.without write := by
  rw [settleAck_eq]
  cases hcurrent : storage.getRow write.table write.id with
  | none => exact Or.inl rfl
  | some current =>
      cases hnewest : storage.newestFor write.table write.id with
      | none => exact Or.inl rfl
      | some newest =>
          by_cases hkey : newest.key = write.key
          · have hnot : ¬ (current.version = write.baseVersion ∧
                current.version ≤ committedVersion) := by
              rintro ⟨hbase, hreached⟩
              exact h current ⟨hcurrent, ⟨newest, hnewest, hkey⟩, hbase, hreached⟩
            left
            simp [hkey, hnot]
          · right
            simp [hkey]

/-- A settlement never lowers the version of a row. -/
theorem settleAck_raises (storage : MemoryStorage) (write : QueuedWrite) (committed : Hlc)
    (now : Nat) {key : String} {stored : StoredRow} (h : storage.rows key = some stored) :
    ∃ later, (storage.settleAck write committed now).2.rows key = some later ∧
      stored.version ≤ later.version := by
  by_cases hcleans : ∃ current, storage.Cleans write committed current
  · obtain ⟨current, hcurrent⟩ := hcleans
    rw [settleAck_of_cleans now hcurrent]
    by_cases hkey : key = rowKey write.table write.id
    · subst hkey
      obtain rfl : current = stored := Option.some.inj (hcurrent.row.symm.trans h)
      exact ⟨_, if_pos rfl, hcurrent.reached⟩
    · exact ⟨stored, (if_neg hkey).trans h, le_rfl⟩
  · rcases settleAck_of_not_cleans now (not_exists.mp hcleans) with hsame | htaken
    · exact ⟨stored, by rw [hsame, h], le_rfl⟩
    · exact ⟨stored, by rw [htaken, without, h], le_rfl⟩

end MemoryStorage

end ZedSync.Dart
