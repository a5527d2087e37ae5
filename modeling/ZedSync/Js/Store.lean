import ZedSync.Core

/-!
The browser stores (`sdk/src/store.mjs`): rows under a joined key, and a
durable write-queue with one slot per `(table, id)`. `MemoryStore` hands out
its live entry objects, and coalescing mutates the object in place;
`IndexedDbStore` hands out copies. Cursors play no part in the client and are
left out.
-/

namespace ZedSync.Js

structure RowMeta where
  version : Hlc
  dirty : Bool
  syncedAtMs : Option Nat
  deriving DecidableEq, Repr, Inhabited

structure StoredRow where
  row : Option Json
  rowMeta : RowMeta
  deriving Repr, Inhabited

structure QueueEntry extends QueuedWrite where
  seq : Nat
  deriving Repr, Inhabited

def QueueEntry.sameRow (entry : QueueEntry) (table id : String) : Bool :=
  entry.table == table && entry.id == id

/-- The slot `seq` holding `write`. -/
def QueuedWrite.atSeq (write : QueuedWrite) (seq : Nat) : QueueEntry :=
  { toQueuedWrite := write, seq := seq }

inductive StoreKind where
  | memory
  | indexedDb
  deriving DecidableEq, Repr, Inhabited

def defaultMaxQueueLength : Nat := 10000

/-- A store. `detached` holds the entry objects of a `MemoryStore` that left
the queue, as they were then: a snapshot taken earlier still points at them. -/
structure Store where
  kind : StoreKind := .memory
  rows : String → Option StoredRow := fun _ => none
  queue : List QueueEntry := []
  seq : Nat := 0
  maxQueueLength : Nat := defaultMaxQueueLength
  detached : List QueueEntry := []

instance : Inhabited Store := ⟨{}⟩

structure SettleOptions where
  table : String
  id : String
  seq : Nat
  writeKey : String
  baseVersion : Hlc
  committedVersion : Hlc
  atMs : Nat

/-- The joined row key; the separator is the NUL character. -/
def rowKey (table id : String) : String := table ++ "\x00" ++ id

namespace Store

def getRow (store : Store) (table id : String) : Option StoredRow :=
  store.rows (rowKey table id)

def setRow (store : Store) (table id : String) (stored : StoredRow) : Store :=
  { store with
    rows := fun key => if key = rowKey table id then some stored else store.rows key }

def putRow (store : Store) (table id : String) (row : Option Json) (rowMeta : RowMeta) :
    Store :=
  store.setRow table id { row := row, rowMeta := rowMeta }

/-- Keeps a tombstone meta so a later stale upsert stays ordered-out. -/
def removeRow (store : Store) (table id : String) (rowMeta : RowMeta) : Store :=
  store.setRow table id { row := none, rowMeta := rowMeta }

theorem getRow_setRow (store : Store) (table id table' id' : String) (stored : StoredRow) :
    (store.setRow table id stored).getRow table' id' =
      if rowKey table' id' = rowKey table id then some stored else store.getRow table' id' :=
  rfl

@[simp] theorem getRow_setRow_self (store : Store) (table id : String) (stored : StoredRow) :
    (store.setRow table id stored).getRow table id = some stored := by
  simp [getRow_setRow]

@[simp] theorem setRow_queue (store : Store) (table id : String) (stored : StoredRow) :
    (store.setRow table id stored).queue = store.queue := rfl

/-- The entry with the lowest sequence number, the earlier one on a tie. -/
def lowestSeq (first : QueueEntry) (rest : List QueueEntry) : QueueEntry :=
  rest.foldl (fun a b => if a.seq ≤ b.seq then a else b) first

theorem lowestSeq_mem (first : QueueEntry) (rest : List QueueEntry) :
    lowestSeq first rest ∈ first :: rest := by
  induction rest generalizing first with
  | nil => exact List.mem_singleton_self first
  | cons second rest ih =>
      have hlater := ih (if first.seq ≤ second.seq then first else second)
      rcases List.mem_cons.mp hlater with hkept | hlater
      · rw [lowestSeq, List.foldl_cons]
        rw [lowestSeq] at hkept
        rw [hkept]
        split <;> simp
      · exact List.mem_cons_of_mem _ (List.mem_cons_of_mem _ hlater)

/-- The queue with a new entry, and the entry dropped when it is over the cap: a
`MemoryStore` shifts its first entry out after the push, an `IndexedDbStore`
deletes the lowest sequence number among the entries it read before the add. -/
def addEntry (store : Store) (added : QueueEntry) :
    List QueueEntry × Option QueueEntry :=
  match store.kind, store.queue with
  | .memory, queue =>
      let pushed := queue ++ [added]
      if pushed.length > store.maxQueueLength then (pushed.tail, pushed.head?)
      else (pushed, none)
  | .indexedDb, [] => ([added], none)
  | .indexedDb, first :: rest =>
      if rest.length + 2 > store.maxQueueLength then
        let dropped := lowestSeq first rest
        ((first :: rest).filter (·.seq ≠ dropped.seq) ++ [added], some dropped)
      else (first :: rest ++ [added], none)

/-- A repeated write to an already-queued row takes that entry's slot over;
another write gets the next sequence number. Returns the slot's sequence
number and the entry dropped on overflow. -/
def enqueue (store : Store) (write : QueuedWrite) : (Nat × Option QueueEntry) × Store :=
  match store.queue.findIdx? (QueueEntry.sameRow · write.table write.id) with
  | some index =>
      let seq := (store.queue.getD index default).seq
      ((seq, none), { store with queue := store.queue.set index (write.atSeq seq) })
  | none =>
      let seq := store.seq + 1
      let (queue, dropped) := store.addEntry (write.atSeq seq)
      ((seq, dropped),
        { store with
          seq := seq, queue := queue, detached := dropped.toList ++ store.detached })

/-- The store would drop the very write it is given: a `MemoryStore` whose cap is
zero and whose queue is empty. -/
def DropsNew (store : Store) : Prop :=
  store.kind = .memory ∧ store.maxQueueLength = 0 ∧ store.queue = []

theorem addEntry_keeps (store : Store) (added : QueueEntry) (h : ¬ store.DropsNew) :
    added ∈ (store.addEntry added).1 := by
  unfold addEntry
  split
  · rename_i hkind
    dsimp only
    split
    · rename_i hover
      cases hqueue : store.queue with
      | nil =>
          simp only [hqueue, List.nil_append, List.length_singleton] at hover
          exact absurd ⟨hkind, by omega, hqueue⟩ h
      | cons first rest => simp
    · simp
  · simp
  · dsimp only
    split <;> simp

/-- After `enqueue` the write is queued. -/
theorem enqueue_keeps (store : Store) (write : QueuedWrite) (h : ¬ store.DropsNew) :
    ∃ entry ∈ (store.enqueue write).2.queue, entry.toQueuedWrite = write := by
  unfold enqueue
  split
  · rename_i index hindex
    obtain ⟨hlt, _⟩ := List.findIdx?_eq_some_iff_getElem.mp hindex
    refine ⟨write.atSeq (store.queue.getD index default).seq, ?_, rfl⟩
    exact List.mem_iff_getElem.mpr ⟨index, by simpa using hlt, by simp⟩
  · exact ⟨_, addEntry_keeps store _ h, rfl⟩

@[simp] theorem enqueue_rows (store : Store) (write : QueuedWrite) :
    (store.enqueue write).2.rows = store.rows := by
  unfold enqueue
  split <;> rfl

/-- The entries the store holds, or held until it handed their objects out. -/
def Holds (store : Store) (entry : QueueEntry) : Prop :=
  entry ∈ store.queue ∨ entry ∈ store.detached

theorem addEntry_subset (store : Store) (added entry : QueueEntry)
    (h : entry ∈ (store.addEntry added).1 ∨ entry ∈ (store.addEntry added).2.toList) :
    entry ∈ store.queue ∨ entry = added := by
  unfold addEntry at h
  split at h
  · dsimp only at h
    split at h
    · rcases h with h | h
      · simpa using List.mem_of_mem_tail h
      · simpa using List.mem_of_mem_head? (Option.mem_toList.mp h)
    · simpa using h
  · rename_i hqueue
    simpa [hqueue] using h
  · rename_i first rest _ hqueue
    dsimp only at h
    rw [hqueue]
    split at h
    · rcases h with h | h
      · simp only [List.mem_append, List.mem_filter, List.mem_singleton] at h
        exact h.imp And.left id
      · have hdropped : entry = lowestSeq first rest := by simpa using h
        exact Or.inl (hdropped ▸ lowestSeq_mem first rest)
    · simpa [or_assoc] using h

/-- Enqueueing adds the write and no other. -/
theorem enqueue_holds (store : Store) (write : QueuedWrite) (entry : QueueEntry)
    (h : (store.enqueue write).2.Holds entry) :
    store.Holds entry ∨ entry.toQueuedWrite = write := by
  unfold enqueue at h
  split at h
  · rcases h with h | h
    · rcases List.mem_or_eq_of_mem_set h with hold | rfl
      · exact Or.inl (Or.inl hold)
      · exact Or.inr rfl
    · exact Or.inl (Or.inr h)
  · dsimp only [Holds] at h
    rw [List.mem_append, ← or_assoc] at h
    rcases h with h | h
    · rcases addEntry_subset store _ entry h with hold | rfl
      · exact Or.inl (Or.inl hold)
      · exact Or.inr rfl
    · exact Or.inl (Or.inr h)

def pending (store : Store) : List QueueEntry := store.queue

/-- What an entry of an earlier snapshot reads as now. -/
def deref (store : Store) (entry : QueueEntry) : QueueEntry :=
  match store.kind with
  | .indexedDb => entry
  | .memory =>
      match (store.queue ++ store.detached).find? (·.seq = entry.seq) with
      | some current => current
      | none => entry

theorem deref_holds (store : Store) (entry : QueueEntry) :
    store.Holds (store.deref entry) ∨ store.deref entry = entry := by
  unfold deref
  split
  · exact Or.inr rfl
  · split
    · rename_i current hcurrent
      exact Or.inl (List.mem_append.mp (List.mem_of_find?_eq_some hcurrent))
    · exact Or.inr rfl

def retire (store : Store) (seq : Nat) : Store :=
  { store with
    queue := store.queue.filter (·.seq ≠ seq),
    detached := store.queue.filter (·.seq = seq) ++ store.detached }

theorem retire_holds (store : Store) (seq : Nat) (entry : QueueEntry)
    (h : (store.retire seq).Holds entry) : store.Holds entry := by
  simp only [Holds, retire, List.mem_append, List.mem_filter] at h
  rcases h with ⟨h, _⟩ | ⟨h, _⟩ | h
  · exact Or.inl h
  · exact Or.inl h
  · exact Or.inr h

/-- Atomically retire the slot and clean the row, when both still identify the
settling request. Returns whether it retired, and adopted. -/
def settleAck (store : Store) (options : SettleOptions) : (Bool × Bool) × Store :=
  match store.queue.findIdx? (·.seq = options.seq) with
  | none => ((false, false), store)
  | some index =>
      let queued := store.queue.getD index default
      match store.getRow options.table options.id with
      | none => ((false, false), store)
      | some current =>
          let settlement := settleQueuedAck
            { version := current.rowMeta.version, dirty := current.rowMeta.dirty }
            queued.toQueuedWrite options.writeKey options.baseVersion
            { id := options.id, committedVersion := options.committedVersion }
          if !settlement.retireCurrentSlot then ((false, false), store)
          else
            let spliced :=
              { store with
                queue := store.queue.eraseIdx index,
                detached := queued :: store.detached }
            match settlement.adopt with
            | none => ((true, false), spliced)
            | some version =>
                ((true, true), spliced.setRow options.table options.id
                  { row := current.row,
                    rowMeta :=
                      { version := version, dirty := false, syncedAtMs := some options.atMs } })

theorem settleAck_holds (store : Store) (options : SettleOptions) (entry : QueueEntry)
    (h : (store.settleAck options).2.Holds entry) : store.Holds entry := by
  unfold settleAck at h
  split at h
  · exact h
  · rename_i index hindex
    obtain ⟨hlt, _⟩ := List.findIdx?_eq_some_iff_getElem.mp hindex
    have hslot : store.queue.getD index default ∈ store.queue := by
      simp [List.getD, List.getElem?_eq_getElem hlt]
    have hspliced : entry ∈ store.queue.eraseIdx index ∨
        entry ∈ store.queue.getD index default :: store.detached → store.Holds entry := by
      rintro (h | h)
      · exact Or.inl (List.mem_of_mem_eraseIdx h)
      · rcases List.mem_cons.mp h with rfl | h
        · exact Or.inl hslot
        · exact Or.inr h
    dsimp only at h
    split at h
    · exact h
    · split at h
      · exact h
      · split at h
        · exact hspliced h
        · exact hspliced h

/-- A settlement never lowers the version of a row. -/
theorem settleAck_raises (store : Store) (options : SettleOptions) {key : String}
    {stored : StoredRow} (h : store.rows key = some stored) :
    ∃ later, (store.settleAck options).2.rows key = some later ∧
      stored.rowMeta.version ≤ later.rowMeta.version := by
  unfold settleAck
  split
  · exact ⟨stored, h, le_rfl⟩
  · dsimp only
    split
    · exact ⟨stored, h, le_rfl⟩
    · rename_i current hcurrent
      split
      · exact ⟨stored, h, le_rfl⟩
      · split
        · exact ⟨stored, h, le_rfl⟩
        · rename_i version hadopt
          by_cases hkey : key = rowKey options.table options.id
          · refine ⟨_, if_pos hkey, ?_⟩
            subst hkey
            obtain rfl : current = stored := Option.some.inj (hcurrent.symm.trans h)
            exact settleQueuedAck_adopt_le hadopt
          · exact ⟨stored, (if_neg hkey).trans h, le_rfl⟩

end Store

end ZedSync.Js
