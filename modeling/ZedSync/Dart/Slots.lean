import Mathlib.Data.List.Nodup
import ZedSync.Dart.Storage
import ZedSync.Lib.Family
import ZedSync.Lib.Lexicographic

/-!
A `MemoryStorage` as a family of slots, one for every pair of a table and an id: the
row stored for it and the writes queued for it, in their order. The queue is matched by
table, id and key, or by the key of a write alone. The rows lie in one map under a
joined key, and two pairs share a key when the name of one table, a blank and some more
is the name of the other.
-/

namespace ZedSync.Dart

/-- A table name without the separator of the row keys. The wire admits only lower
case letters, digits and underscores. -/
def Separable (table : String) : Prop := ' ' ∉ table.toList

instance (table : String) : Decidable (Separable table) :=
  inferInstanceAs (Decidable (' ' ∉ table.toList))

/-- One table has the name of the other, a blank and more, and the ids make up for it. -/
def SharesKey (table id table' id' : String) : Prop :=
  ∃ middle,
    (table' = table ++ " " ++ middle ∧ id = middle ++ " " ++ id') ∨
      (table = table' ++ " " ++ middle ∧ id' = middle ++ " " ++ id)

/-- Two rows have one key when they are one row, or when their names run together. -/
theorem rowKey_eq_iff (table id table' id' : String) :
    rowKey table id = rowKey table' id' ↔
      (table = table' ∧ id = id') ∨ SharesKey table id table' id' := by
  have hkey (table id : String) : (rowKey table id).toList = table.toList ++ ' ' :: id.toList := by
    simp [rowKey, String.toList_append]
  have hjoined (longer table middle : String) :
      longer = table ++ " " ++ middle ↔
        longer.toList = table.toList ++ ' ' :: middle.toList := by
    rw [← String.toList_inj]
    simp [String.toList_append]
  rw [← String.toList_inj, hkey, hkey, Lexicographic.joined_eq_iff, String.toList_inj,
    String.toList_inj, SharesKey]
  refine or_congr Iff.rfl ⟨?_, ?_⟩
  · rintro ⟨middle, hmiddle⟩
    refine ⟨String.ofList middle, ?_⟩
    simpa [hjoined] using hmiddle
  · rintro ⟨middle, hmiddle⟩
    refine ⟨middle.toList, ?_⟩
    simpa [hjoined] using hmiddle

theorem Separable.not_sharesKey {table table' id id' : String} (htable : Separable table)
    (htable' : Separable table') : ¬ SharesKey table id table' id' := by
  rintro ⟨middle, ⟨rfl, -⟩ | ⟨rfl, -⟩⟩
  · exact htable' (by simp [String.toList_append])
  · exact htable (by simp [String.toList_append])

theorem rowKey_inj {table table' id id' : String} (htable : Separable table)
    (htable' : Separable table') (h : rowKey table id = rowKey table' id') :
    table = table' ∧ id = id' :=
  ((rowKey_eq_iff table id table' id').mp h).resolve_right (htable.not_sharesKey htable')

namespace MemoryStorage

/-- The writes queued for one row, in their order. -/
def pendingFor (storage : MemoryStorage) (table id : String) : List QueuedWrite :=
  storage.pending.filter (QueuedWrite.sameRow · table id)

theorem newestFor_eq (storage : MemoryStorage) (table id : String) :
    storage.newestFor table id = (storage.pendingFor table id).getLast? :=
  List.getLast?_filter.symm

@[simp] theorem pendingFor_putRow (storage : MemoryStorage) (table id table' id' : String)
    (row : StoredRow) :
    (storage.putRow table id row).pendingFor table' id' = storage.pendingFor table' id' := rfl

@[simp] theorem getRow_without (storage : MemoryStorage) (write : QueuedWrite)
    (table' id' : String) : (storage.without write).getRow table' id' = storage.getRow table' id' :=
  rfl

theorem pendingFor_without (storage : MemoryStorage) (write : QueuedWrite) :
    (storage.without write).pendingFor write.table write.id =
      (storage.pendingFor write.table write.id).eraseP (·.key == write.key) := by
  have hentry : (QueuedWrite.sameEntry · write) = fun entry : QueuedWrite =>
      entry.key == write.key && entry.sameRow write.table write.id := by
    funext entry
    rw [QueuedWrite.sameEntry, QueuedWrite.sameRow, Bool.and_comm]
  rw [pendingFor, pendingFor, pending, pending, without, List.eraseP_filter, hentry]

end MemoryStorage

theorem QueuedWrite.sameRow_other {table id table' id' : String} {write : QueuedWrite}
    (hother : (table, id) ≠ (table', id')) (hrow : write.sameRow table id = true) :
    write.sameRow table' id' = false := by
  obtain ⟨rfl, rfl⟩ := (sameRow_iff _ _ _).mp hrow
  rw [← Bool.not_eq_true, sameRow_iff]
  rintro ⟨htable, hid⟩
  exact hother (Prod.ext htable hid)

/-- Taking out an entry that is not listed leaves the list as it is. -/
theorem filter_eraseP_of_disjoint {α : Type} {taken listed : α → Bool}
    (hdisjoint : ∀ value, taken value = true → listed value = false) (values : List α) :
    (values.eraseP taken).filter listed = values.filter listed := by
  induction values with
  | nil => rfl
  | cons value values ih =>
      cases htaken : taken value with
      | true => simp [List.eraseP_cons_of_pos htaken, hdisjoint value htaken]
      | false =>
          have hnot : ¬ taken value = true := by simp [htaken]
          rw [List.eraseP_cons_of_neg hnot, List.filter_cons, List.filter_cons, ih]

theorem MemoryStorage.pendingFor_without_other (storage : MemoryStorage) {write : QueuedWrite}
    {table' id' : String} (hother : (write.table, write.id) ≠ (table', id')) :
    (storage.without write).pendingFor table' id' = storage.pendingFor table' id' := by
  apply filter_eraseP_of_disjoint
  intro entry hentry
  have hrow : entry.sameRow write.table write.id = true := by
    rw [QueuedWrite.sameEntry, Bool.and_eq_true] at hentry
    exact hentry.1
  exact QueuedWrite.sameRow_other hother hrow

/-- A call that may change the storage. -/
inductive StorageCall where
  | putRow (table id : String) (row : StoredRow)
  | enqueue (write : QueuedWrite)
  | retire (write : QueuedWrite)
  | settleAck (write : QueuedWrite) (committedVersion : Hlc) (now : Nat)

/-- The table and the id a call is for. -/
def StorageCall.address : StorageCall → String × String
  | .putRow table id _ => (table, id)
  | .enqueue write | .retire write | .settleAck write _ _ => (write.table, write.id)

namespace MemoryStorage

def call (storage : MemoryStorage) : StorageCall → MemoryStorage
  | .putRow table id row => storage.putRow table id row
  | .enqueue write => storage.enqueue write
  | .retire write => storage.retire write
  | .settleAck write committedVersion now => (storage.settleAck write committedVersion now).2

end MemoryStorage

/-- The call keeps off another row. A put under a key that the two share would replace
the other row, unless that is what it holds already; so would an acknowledgement that
cleans its row. A retirement asks for the key of the write alone. -/
def StorageCall.KeepsOff (storage : MemoryStorage) (table' id' : String) : StorageCall → Prop
  | .putRow table id row =>
      SharesKey table id table' id' → storage.getRow table' id' = some row
  | .enqueue _ => True
  | .retire write => ∀ entry ∈ storage.pendingFor table' id', entry.key ≠ write.key
  | .settleAck write committedVersion now =>
      SharesKey write.table write.id table' id' → ∀ current,
        storage.Cleans write committedVersion current →
          current.settled committedVersion now = current

section Others

variable {storage : MemoryStorage} {table' id' : String}

/-- A put leaves another row as it is when the two share no key, or when it holds what
is put. -/
theorem getRow_putRow_other_iff {table id : String} (row : StoredRow)
    (hother : (table, id) ≠ (table', id')) :
    (storage.putRow table id row).getRow table' id' = storage.getRow table' id' ↔
      (SharesKey table id table' id' → storage.getRow table' id' = some row) := by
  have hkey : rowKey table' id' = rowKey table id ↔ SharesKey table id table' id' := by
    rw [eq_comm, rowKey_eq_iff, or_iff_right]
    rintro ⟨rfl, rfl⟩
    exact hother rfl
  rw [MemoryStorage.getRow_putRow]
  by_cases hshares : SharesKey table id table' id'
  · rw [if_pos (hkey.mpr hshares), eq_comm]
    exact ⟨fun hsame _ => hsame, fun hsame => hsame hshares⟩
  · rw [if_neg fun hsame => hshares (hkey.mp hsame)]
    exact ⟨fun _ hno => absurd hno hshares, fun _ => rfl⟩

/-- Rows that share a key hold the same. -/
theorem SharesKey.getRow_eq {table id : String} (h : SharesKey table id table' id') :
    storage.getRow table id = storage.getRow table' id' := by
  rw [MemoryStorage.getRow, MemoryStorage.getRow, (rowKey_eq_iff _ _ _ _).mpr (Or.inr h)]

/-- An acknowledgement leaves the queue, or takes the entry of its write out. -/
theorem MemoryStorage.settleAck_queue (write : QueuedWrite) (committedVersion : Hlc) (now : Nat) :
    (storage.settleAck write committedVersion now).2.queue = storage.queue ∨
      (storage.settleAck write committedVersion now).2.queue = (storage.without write).queue := by
  by_cases hcleans : ∃ current, storage.Cleans write committedVersion current
  · obtain ⟨current, hcurrent⟩ := hcleans
    rw [settleAck_of_cleans now hcurrent]
    exact Or.inr rfl
  · rcases settleAck_of_not_cleans now (not_exists.mp hcleans) with hsame | htaken
    · exact Or.inl (congrArg queue hsame)
    · exact Or.inr (congrArg queue htaken)

theorem pendingFor_settleAck_other {write : QueuedWrite} (committedVersion : Hlc) (now : Nat)
    (hother : (write.table, write.id) ≠ (table', id')) :
    (storage.settleAck write committedVersion now).2.pendingFor table' id' =
      storage.pendingFor table' id' := by
  rw [MemoryStorage.pendingFor, MemoryStorage.pending]
  rcases MemoryStorage.settleAck_queue write committedVersion now with hsame | htaken
  · rw [hsame]
    rfl
  · rw [htaken]
    exact storage.pendingFor_without_other hother

theorem getRow_settleAck_other_iff {write : QueuedWrite} (committedVersion : Hlc) (now : Nat)
    (hother : (write.table, write.id) ≠ (table', id')) :
    (storage.settleAck write committedVersion now).2.getRow table' id' =
        storage.getRow table' id' ↔
      (SharesKey write.table write.id table' id' → ∀ current,
        storage.Cleans write committedVersion current →
          current.settled committedVersion now = current) := by
  by_cases hcleans : ∃ current, storage.Cleans write committedVersion current
  · obtain ⟨current, hcurrent⟩ := hcleans
    rw [MemoryStorage.settleAck_of_cleans now hcurrent,
      ← storage.getRow_without write table' id',
      getRow_putRow_other_iff (current.settled committedVersion now) hother,
      MemoryStorage.getRow_without]
    refine forall_congr' fun hshares => ?_
    rw [← hshares.getRow_eq, hcurrent.row]
    constructor
    · intro hsame other hother'
      obtain rfl := Option.some.inj (hother'.row.symm.trans hcurrent.row)
      exact (Option.some.inj hsame).symm
    · intro hall
      rw [hall current hcurrent]
  · have hnone := not_exists.mp hcleans
    refine ⟨fun _ _ current hcurrent => absurd hcurrent (hnone current), fun _ => ?_⟩
    rcases MemoryStorage.settleAck_of_not_cleans now hnone with hsame | htaken
    · rw [hsame]
    · rw [htaken, MemoryStorage.getRow_without]

/-- A retirement leaves the writes of another row queued when none has the key. -/
theorem pendingFor_retire_iff (write : QueuedWrite) :
    (storage.retire write).pendingFor table' id' = storage.pendingFor table' id' ↔
      ∀ entry ∈ storage.pendingFor table' id', entry.key ≠ write.key := by
  have hretire : (storage.retire write).pendingFor table' id' =
      (storage.pendingFor table' id').filter (·.key ≠ write.key) := by
    simp only [MemoryStorage.pendingFor, MemoryStorage.pending, MemoryStorage.retire,
      List.filter_filter, Bool.and_comm]
  rw [hretire, List.filter_eq_self]
  simp

theorem pendingFor_enqueue_other {write : QueuedWrite}
    (hother : (write.table, write.id) ≠ (table', id')) :
    (storage.enqueue write).pendingFor table' id' = storage.pendingFor table' id' := by
  have hrow := (sameRow_iff write write.table write.id).mpr ⟨rfl, rfl⟩
  simp [MemoryStorage.pendingFor, MemoryStorage.pending, MemoryStorage.enqueue,
    QueuedWrite.sameRow_other hother hrow]

end Others

/-- A call leaves the row and the queued writes of another table or id as they are
exactly when it keeps off them. -/
theorem StorageCall.kept_iff (storage : MemoryStorage) (call : StorageCall) {table' id' : String}
    (hother : call.address ≠ (table', id')) :
    ((storage.call call).getRow table' id' = storage.getRow table' id' ∧
        (storage.call call).pendingFor table' id' = storage.pendingFor table' id') ↔
      call.KeepsOff storage table' id' := by
  cases call with
  | putRow table id row =>
      rw [StorageCall.KeepsOff, ← getRow_putRow_other_iff row hother]
      exact and_iff_left (storage.pendingFor_putRow table id table' id' row)
  | enqueue write =>
      exact iff_of_true ⟨rfl, pendingFor_enqueue_other hother⟩ trivial
  | retire write =>
      rw [StorageCall.KeepsOff, ← pendingFor_retire_iff write]
      exact and_iff_right rfl
  | settleAck write committedVersion now =>
      rw [StorageCall.KeepsOff, ← getRow_settleAck_other_iff committedVersion now hother]
      exact and_iff_left (pendingFor_settleAck_other committedVersion now hother)

/-- What is kept for one row: the row, and the writes queued for it. -/
structure RowSlot where
  row : Option StoredRow := none
  queue : List QueuedWrite := []

namespace RowSlot

/-- A call as a storage of a single row would take it. -/
def call (slot : RowSlot) : StorageCall → RowSlot
  | .putRow _ _ row => { slot with row := some row }
  | .enqueue write => { slot with queue := slot.queue ++ [write] }
  | .retire write => { slot with queue := slot.queue.filter (·.key ≠ write.key) }
  | .settleAck write committedVersion now =>
      let rest := slot.queue.eraseP (·.key == write.key)
      match slot.row, slot.queue.getLast? with
      | some current, some newest =>
          if newest.key ≠ write.key then { slot with queue := rest }
          else if current.version = write.baseVersion ∧ current.version ≤ committedVersion then
            { row := some (current.settled committedVersion now), queue := rest }
          else slot
      | _, _ => slot

end RowSlot

def MemoryStorage.slot (storage : MemoryStorage) (address : String × String) : RowSlot :=
  { row := storage.getRow address.1 address.2
    queue := storage.pendingFor address.1 address.2 }

theorem MemoryStorage.slot_settleAck (storage : MemoryStorage) (write : QueuedWrite)
    (committedVersion : Hlc) (now : Nat) :
    (storage.settleAck write committedVersion now).2.slot (write.table, write.id) =
      (storage.slot (write.table, write.id)).call (.settleAck write committedVersion now) := by
  have hsettle := settleAck_eq storage write committedVersion now
  rw [newestFor_eq] at hsettle
  rw [hsettle]
  simp only [RowSlot.call, slot]
  cases hcurrent : storage.getRow write.table write.id with
  | none => simp [hcurrent]
  | some current =>
      cases hnewest : (storage.pendingFor write.table write.id).getLast? with
      | none => simp [hcurrent]
      | some newest =>
          by_cases hkey : newest.key = write.key
          · by_cases hclean : current.version = write.baseVersion ∧
                current.version ≤ committedVersion
            · simp [hkey, if_pos hclean, pendingFor_without]
            · simp [hkey, if_neg hclean, hcurrent]
          · simp [hkey, hcurrent, pendingFor_without]

/-- A call does to the slot of its row what it would do to a storage of that row alone. -/
theorem MemoryStorage.slot_call (storage : MemoryStorage) (call : StorageCall) :
    (storage.call call).slot call.address = (storage.slot call.address).call call := by
  cases call with
  | putRow table id row => simp [MemoryStorage.call, slot, StorageCall.address, RowSlot.call]
  | enqueue write =>
      simp [MemoryStorage.call, slot, StorageCall.address, RowSlot.call, enqueue, pendingFor,
        pending, QueuedWrite.sameRow, getRow]
  | retire write =>
      simp [MemoryStorage.call, slot, StorageCall.address, RowSlot.call, retire, pendingFor,
        pending, getRow, Bool.and_comm]
  | settleAck write committedVersion now => exact storage.slot_settleAck write committedVersion now

/-- The storage, read row by row. -/
def rowSlots : Family.Slots MemoryStorage StorageCall (String × String) RowSlot where
  step := MemoryStorage.call
  address := StorageCall.address
  view := MemoryStorage.slot
  act := RowSlot.call
  own := MemoryStorage.slot_call

/-- A call spares another slot exactly when it keeps off it. -/
theorem rowSlots_spares_iff (storage : MemoryStorage) (call : StorageCall) (table' id' : String) :
    rowSlots.Spares (table', id') storage call ↔
      (call.address ≠ (table', id') → call.KeepsOff storage table' id') := by
  refine forall_congr' fun hother => ?_
  rw [← call.kept_iff storage hother]
  exact Iff.of_eq (RowSlot.mk.injEq _ _ _ _)

/-- Every row goes its own way through a run, at every point of it, exactly when every
call of the run keeps off the other rows. -/
theorem rows_go_apart_iff (calls : List StorageCall) :
    (∀ before, before <+: calls → ∀ address,
        (Run.final MemoryStorage.call {} before).slot address =
          Run.final RowSlot.call {} (rowSlots.addressed address before)) ↔
      Run.Along MemoryStorage.call
        (fun storage call => ∀ table' id', call.address ≠ (table', id') →
          call.KeepsOff storage table' id') {} calls := by
  have hhome (storage : MemoryStorage) (call : StorageCall) :
      rowSlots.StaysHome storage call ↔ ∀ table' id', call.address ≠ (table', id') →
        call.KeepsOff storage table' id' := by
    rw [Family.Slots.StaysHome, Prod.forall]
    exact forall₂_congr fun table' id' => rowSlots_spares_iff storage call table' id'
  exact (rowSlots.apart_iff {} calls).trans (Run.along_congr hhome {} calls)

/-- The writes that the calls of a run queue. -/
def queuedBy (calls : List StorageCall) : List QueuedWrite :=
  calls.filterMap fun
    | .enqueue write => some write
    | _ => none

/-- The tables have names the wire admits, the queued writes have a key each, and only
writes that the run queues are retired. -/
structure Orderly (calls : List StorageCall) : Prop where
  tables : ∀ call ∈ calls, Separable call.address.1
  keys : ((queuedBy calls).map (·.key)).Nodup
  retired : ∀ write, .retire write ∈ calls → write ∈ queuedBy calls

theorem mem_queuedBy {calls : List StorageCall} {write : QueuedWrite} :
    write ∈ queuedBy calls ↔ .enqueue write ∈ calls := by
  rw [queuedBy, List.mem_filterMap]
  constructor
  · rintro ⟨call, hcall, hwrite⟩
    cases call with
    | enqueue queued =>
        obtain rfl := Option.some.inj hwrite
        exact hcall
    | _ => cases hwrite
  · intro hcall
    exact ⟨_, hcall, rfl⟩

/-- An entry after a call was queued before it, or by it. -/
theorem MemoryStorage.mem_queue_call {storage : MemoryStorage} {call : StorageCall}
    {entry : QueuedWrite} (h : entry ∈ (storage.call call).queue) :
    entry ∈ storage.queue ∨ call = .enqueue entry := by
  cases call with
  | putRow table id row => exact Or.inl h
  | enqueue write =>
      rcases List.mem_append.mp h with hbefore | hnow
      · exact Or.inl hbefore
      · rw [List.mem_singleton.mp hnow]
        exact Or.inr rfl
  | retire write => exact Or.inl (List.mem_of_mem_filter h)
  | settleAck write committedVersion now =>
      left
      rw [MemoryStorage.call] at h
      rcases settleAck_queue write committedVersion now with hsame | htaken
      · rwa [hsame] at h
      · rw [htaken] at h
        exact List.mem_of_mem_eraseP h

/-- A retired write of a run keeps off the other rows, as no other write has its key. -/
theorem retire_keepsOff {calls : List StorageCall} (hkeys : ((queuedBy calls).map (·.key)).Nodup)
    {storage : MemoryStorage} (hqueue : ∀ entry ∈ storage.queue, entry ∈ queuedBy calls)
    {write : QueuedWrite} (hwrite : write ∈ queuedBy calls) {table' id' : String}
    (hother : (write.table, write.id) ≠ (table', id')) :
    (StorageCall.retire write).KeepsOff storage table' id' := by
  intro entry hentry hkey
  obtain ⟨hmem, hrow⟩ := List.mem_filter.mp hentry
  obtain rfl := List.inj_on_of_nodup_map hkeys (hqueue entry hmem) hwrite hkey
  obtain ⟨htable, hid⟩ := (sameRow_iff _ _ _).mp hrow
  exact hother (Prod.ext htable hid)

namespace Orderly

variable {calls : List StorageCall}

/-- Where the queue holds writes of the run only, its calls keep off the other rows. -/
theorem keepsOff (h : Orderly calls) {storage : MemoryStorage}
    (hqueue : ∀ entry ∈ storage.queue, entry ∈ queuedBy calls) {call : StorageCall}
    (hcall : call ∈ calls) {table' id' : String} (htable' : Separable table')
    (hother : call.address ≠ (table', id')) : call.KeepsOff storage table' id' := by
  have htable := h.tables call hcall
  cases call with
  | putRow table id row => exact fun hshares => absurd hshares (htable.not_sharesKey htable')
  | enqueue write => trivial
  | retire write => exact retire_keepsOff h.keys hqueue (h.retired write hcall) hother
  | settleAck write committedVersion now =>
      exact fun hshares => absurd hshares (htable.not_sharesKey htable')

/-- Through an orderly run, every row of a table with such a name goes its own way: it and
its queued writes are those of a storage that took its own calls only. -/
theorem slot_final (h : Orderly calls) {table' : String} (htable' : Separable table')
    (id' : String) :
    (Run.final MemoryStorage.call {} calls).slot (table', id') =
      Run.final RowSlot.call {} (rowSlots.addressed (table', id') calls) := by
  have hcalls : Run.Along MemoryStorage.call (fun _ call => call ∈ calls) {} calls :=
    Run.along_of_forall fun call hcall => hcall
  refine rowSlots.view_final (Run.along_of_inv
    (J := fun storage : MemoryStorage => ∀ entry ∈ storage.queue, entry ∈ queuedBy calls)
    ?_ (by simp) hcalls)
  intro storage call hqueue hcall
  constructor
  · rw [rowSlots_spares_iff]
    exact h.keepsOff hqueue hcall htable'
  · intro entry hentry
    rcases MemoryStorage.mem_queue_call hentry with hbefore | rfl
    · exact hqueue entry hbefore
    · exact mem_queuedBy.mpr hcall

end Orderly

/-- In every state the storage reaches, a call leaves the row and the queued writes of
another table or id as they are exactly when it keeps off them. -/
theorem rows_kept_apart_iff (calls : List StorageCall) (call : StorageCall) (table' id' : String)
    (hother : call.address ≠ (table', id')) :
    let storage := Run.final MemoryStorage.call {} calls
    ((storage.call call).getRow table' id' = storage.getRow table' id' ∧
        (storage.call call).pending.filter (QueuedWrite.sameRow · table' id') =
          storage.pending.filter (QueuedWrite.sameRow · table' id')) ↔
      call.KeepsOff storage table' id' :=
  call.kept_iff (Run.final MemoryStorage.call {} calls) hother

section Samples

def sampleRow (wall : Nat) : StoredRow :=
  { row := none, version := { wallMs := wall, counter := 0, actor := "dev" }, dirty := true
    syncedAtMs := none }

def sampleWrite (table id key : String) (wall : Nat) : QueuedWrite :=
  { table := table, id := id, op := .upsert, payload := none, key := key
    baseVersion := { wallMs := wall, counter := 0, actor := "dev" } }

/-- An acknowledged write leaves the row of the next id and its queued write alone. -/
theorem neighbour_kept_at_ack :
    let storage := Run.final MemoryStorage.call {}
      [.putRow "items" "7" (sampleRow 1), .enqueue (sampleWrite "items" "7" "dev-1-0" 1),
        .putRow "items" "8" (sampleRow 2), .enqueue (sampleWrite "items" "8" "dev-2-1" 2)]
    let call := StorageCall.settleAck (sampleWrite "items" "7" "dev-1-0" 1)
      { wallMs := 5, counter := 0, actor := "server" } 9
    (storage.call call).getRow "items" "8" = storage.getRow "items" "8" ∧
      (storage.call call).pending.filter (QueuedWrite.sameRow · "items" "8") =
        storage.pending.filter (QueuedWrite.sameRow · "items" "8") := by
  refine (rows_kept_apart_iff _ _ "items" "8" (by decide)).mpr ?_
  have htable : Separable "items" := by decide
  exact fun hshares => absurd hshares (htable.not_sharesKey htable)

/-- A put for `order items` takes the place of a row of `order` that is still queued. -/
theorem table_with_blank_overwrites :
    let storage := Run.final MemoryStorage.call {}
      [.putRow "order" "items 7" (sampleRow 1),
        .enqueue (sampleWrite "order" "items 7" "dev-1-0" 1)]
    let call := StorageCall.putRow "order items" "7" (sampleRow 2)
    call.address ≠ ("order", "items 7") ∧ (storage.queue.map (·.key)).Nodup ∧
      (storage.call call).getRow "order" "items 7" = some (sampleRow 2) ∧
        (storage.call call).getRow "order" "items 7" ≠ storage.getRow "order" "items 7" := by
  refine ⟨by decide, by decide, rfl, ?_⟩
  intro hsame
  have hrow : sampleRow 2 = sampleRow 1 := Option.some.inj hsame
  exact absurd (congrArg (·.version.wallMs) hrow) (by decide)

end Samples

end ZedSync.Dart
