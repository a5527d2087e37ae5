import ZedSync.Js.Store
import ZedSync.Lib.ObjectStore
import ZedSync.Lib.Replies
import Mathlib.Data.String.Basic

/-!
`IndexedDbStore` of `sdk/src/store.mjs` on the object stores of the browser: rows by
their joined key, the queue under generated numbers, cursors beside them. Each method is
one transaction. It answers as the store of the model does, whose queue is a list; and
as `MemoryStore` does, as long as the queue may hold an entry at all.
-/

namespace ZedSync.Js

/-- How far a feed was read. -/
structure Cursor where
  cursor : String
  lastSyncedAtMs : Nat
  deriving DecidableEq, Repr

/-- The methods of a store, with what they are given. -/
inductive StoreCall where
  | getRow (table id : String)
  | putRow (table id : String) (row : Option Json) (rowMeta : RowMeta)
  | removeRow (table id : String) (rowMeta : RowMeta)
  | enqueue (write : QueuedWrite)
  | pending
  | retire (seq : Nat)
  | settleAck (options : SettleOptions)
  | getCursor (scope : String)
  | setCursor (scope cursor : String) (atMs : Nat)

/-- What they answer, and the write that is handed to `onOverflow`. -/
inductive StoreReply where
  | row (found : Option StoredRow)
  | queued (seq : Nat) (dropped : Option QueueEntry)
  | entries (queue : List QueueEntry)
  | settled (retired adopted : Bool)
  | cursor (found : Option Cursor)
  | done

/-- A store of the model with its cursors. -/
structure CursorStore where
  store : Store
  cursors : String → Option Cursor := fun _ => none

namespace CursorStore

def call (stored : CursorStore) : StoreCall → StoreReply × CursorStore
  | .getRow table id => (.row (stored.store.getRow table id), stored)
  | .putRow table id row rowMeta =>
      (.done, { stored with store := stored.store.putRow table id row rowMeta })
  | .removeRow table id rowMeta =>
      (.done, { stored with store := stored.store.removeRow table id rowMeta })
  | .enqueue write =>
      let ((seq, dropped), store) := stored.store.enqueue write
      (.queued seq dropped, { stored with store := store })
  | .pending => (.entries stored.store.pending, stored)
  | .retire seq => (.done, { stored with store := stored.store.retire seq })
  | .settleAck options =>
      let ((retired, adopted), store) := stored.store.settleAck options
      (.settled retired adopted, { stored with store := store })
  | .getCursor scope => (.cursor (stored.cursors scope), stored)
  | .setCursor scope cursor atMs =>
      (.done,
        { stored with
          cursors := fun other =>
            if scope = other then some { cursor := cursor, lastSyncedAtMs := atMs }
            else stored.cursors other })

/-- A new store. -/
def fresh (kind : StoreKind) (maxQueueLength : Nat) : CursorStore :=
  { store := { kind := kind, maxQueueLength := maxQueueLength } }

end CursorStore

structure IndexedDbStore where
  rows : ObjectStore String StoredRow
  queue : GeneratedStore QueueEntry
  metas : ObjectStore String Cursor
  maxQueueLength : Nat

namespace IndexedDbStore

/-- A new database. -/
def opened (maxQueueLength : Nat) : IndexedDbStore :=
  { rows := .empty, queue := .empty, metas := .empty, maxQueueLength := maxQueueLength }

def cursorKey (scope : String) : String := "cursor\x00" ++ scope

def putRow (db : IndexedDbStore) (table id : String) (row : Option Json) (rowMeta : RowMeta) :
    IndexedDbStore :=
  { db with rows := db.rows.put (rowKey table id) { row := row, rowMeta := rowMeta } }

/-- The `reduce` over the entries read, from the first of them. -/
def oldest : List QueueEntry → Option QueueEntry
  | [] => none
  | first :: rest =>
      some ((first :: rest).foldl (fun a b => if a.seq ≤ b.seq then a else b) first)

def enqueue (db : IndexedDbStore) (write : QueuedWrite) :
    (Nat × Option QueueEntry) × IndexedDbStore :=
  let all := db.queue.getAll
  match all.find? (QueueEntry.sameRow · write.table write.id) with
  | some existing =>
      ((existing.seq, none),
        { db with queue := db.queue.put existing.seq (write.atSeq existing.seq) })
  | none =>
      let (seq, queue) := db.queue.add write.atSeq
      if all.length + 1 > db.maxQueueLength then
        match oldest all with
        | none => ((seq, none), { db with queue := queue })
        | some dropped => ((seq, some dropped), { db with queue := queue.delete dropped.seq })
      else ((seq, none), { db with queue := queue })

def settleAck (db : IndexedDbStore) (options : SettleOptions) : (Bool × Bool) × IndexedDbStore :=
  match db.queue.get options.seq, db.rows.get (rowKey options.table options.id) with
  | some queued, some current =>
      let settlement := settleQueuedAck
        { version := current.rowMeta.version, dirty := current.rowMeta.dirty }
        queued.toQueuedWrite options.writeKey options.baseVersion
        { id := options.id, committedVersion := options.committedVersion }
      if !settlement.retireCurrentSlot then ((false, false), db)
      else
        let deleted := { db with queue := db.queue.delete options.seq }
        match settlement.adopt with
        | none => ((true, false), deleted)
        | some version =>
            ((true, true),
              { deleted with
                rows := deleted.rows.put (rowKey options.table options.id)
                  { row := current.row,
                    rowMeta :=
                      { version := version, dirty := false, syncedAtMs := some options.atMs } } })
  | _, _ => ((false, false), db)

def call (db : IndexedDbStore) : StoreCall → StoreReply × IndexedDbStore
  | .getRow table id => (.row (db.rows.get (rowKey table id)), db)
  | .putRow table id row rowMeta => (.done, db.putRow table id row rowMeta)
  | .removeRow table id rowMeta => (.done, db.putRow table id none rowMeta)
  | .enqueue write =>
      let ((seq, dropped), db) := db.enqueue write
      (.queued seq dropped, db)
  | .pending => (.entries db.queue.getAll, db)
  | .retire seq => (.done, { db with queue := db.queue.delete seq })
  | .settleAck options =>
      let ((retired, adopted), db) := db.settleAck options
      (.settled retired adopted, db)
  | .getCursor scope => (.cursor (db.metas.get (cursorKey scope)), db)
  | .setCursor scope cursor atMs =>
      (.done,
        { db with
          metas := db.metas.put (cursorKey scope) { cursor := cursor, lastSyncedAtMs := atMs } })

/-- The record of an entry: its number is the key. -/
def record (entry : QueueEntry) : Nat × QueueEntry := (entry.seq, entry)

/-- The database holds what the store does. -/
structure Mirrors (stored : CursorStore) (db : IndexedDbStore) : Prop where
  rows : ∀ key, db.rows.get key = stored.store.rows key
  queue : db.queue.objects.records = stored.store.queue.map record
  next : db.queue.next = stored.store.seq + 1
  cap : db.maxQueueLength = stored.store.maxQueueLength
  cursors : ∀ scope, db.metas.get (cursorKey scope) = stored.cursors scope

namespace Mirrors

variable {stored : CursorStore} {db : IndexedDbStore}

theorem getAll (h : Mirrors stored db) : db.queue.getAll = stored.store.queue := by
  rw [GeneratedStore.getAll, ObjectStore.getAll, h.queue, List.map_map]
  exact List.map_id _

/-- The entries stand in the order of their numbers. -/
theorem ascending (h : Mirrors stored db) :
    stored.store.queue.Pairwise fun first second => first.seq < second.seq := by
  have hrecords := db.queue.objects.ascending
  rw [h.queue, List.pairwise_map] at hrecords
  exact hrecords

theorem get_queue (h : Mirrors stored db) (seq : Nat) :
    db.queue.get seq = stored.store.queue.find? (·.seq = seq) := by
  rw [GeneratedStore.get, ObjectStore.get, h.queue, List.find?_map, Option.map_map]
  exact Option.map_id_apply

/-- The same store under other rows. -/
theorem with_row (h : Mirrors stored db) (table id : String) (row : StoredRow) :
    Mirrors { stored with store := stored.store.setRow table id row }
      { db with rows := db.rows.put (rowKey table id) row } := by
  refine ⟨?_, h.queue, h.next, h.cap, h.cursors⟩
  intro key
  rw [ObjectStore.get_put]
  simp only [Store.setRow, h.rows, eq_comm]

end Mirrors

section Queue

variable {queue : List QueueEntry} {entry : QueueEntry} {index : Nat}

/-- An entry that takes the place of another, in the queue and among the records. -/
theorem map_set (hascending : queue.Pairwise fun first second => first.seq < second.seq)
    (hentry : queue[index]? = some entry) (write : QueuedWrite) :
    (queue.set index (write.atSeq entry.seq)).map record =
      (queue.map record).map fun old =>
        if old.1 = entry.seq then (entry.seq, write.atSeq entry.seq) else old := by
  induction queue generalizing index with
  | nil => simp at hentry
  | cons first rest ih =>
      obtain ⟨hfirst, hrest⟩ := List.pairwise_cons.mp hascending
      cases index with
      | zero =>
          obtain rfl : first = entry := by simpa using hentry
          have hothers : ∀ old ∈ rest.map record, ¬ old.1 = first.seq := by
            intro old hold hsame
            obtain ⟨later, hlater, rfl⟩ := List.mem_map.mp hold
            exact (hfirst later hlater).ne hsame.symm
          have hkept : ((rest.map record).map fun old =>
              if old.1 = first.seq then (first.seq, write.atSeq first.seq) else old) =
              rest.map record := by
            conv_rhs => rw [← List.map_id (rest.map record)]
            exact List.map_congr_left fun old hold => if_neg (hothers old hold)
          simp only [List.set_cons_zero, List.map_cons, hkept]
          simp [record, QueuedWrite.atSeq]
      | succ index =>
          have hentry' : rest[index]? = some entry := by simpa using hentry
          have hnot : ¬ (record first).1 = entry.seq :=
            (hfirst entry (List.mem_of_getElem? hentry')).ne
          simp only [List.set_cons_succ, List.map_cons, hnot, if_false]
          rw [ih hrest hentry']

/-- An entry that leaves. -/
theorem map_eraseIdx (hascending : queue.Pairwise fun first second => first.seq < second.seq)
    (hentry : queue[index]? = some entry) :
    (queue.eraseIdx index).map record = (queue.map record).filter (·.1 ≠ entry.seq) := by
  induction queue generalizing index with
  | nil => simp at hentry
  | cons first rest ih =>
      obtain ⟨hfirst, hrest⟩ := List.pairwise_cons.mp hascending
      cases index with
      | zero =>
          obtain rfl : first = entry := by simpa using hentry
          have hothers : (rest.map record).filter (·.1 ≠ first.seq) = rest.map record := by
            apply List.filter_eq_self.mpr
            intro old hold
            obtain ⟨later, hlater, rfl⟩ := List.mem_map.mp hold
            exact decide_eq_true (hfirst later hlater).ne'
          have hleaves : ¬ (record first).1 ≠ first.seq := fun hne => hne rfl
          rw [List.eraseIdx_cons_zero, List.map_cons,
            List.filter_cons_of_neg (by simpa using hleaves), hothers]
      | succ index =>
          have hentry' : rest[index]? = some entry := by simpa using hentry
          have hnot : (record first).1 ≠ entry.seq :=
            (hfirst entry (List.mem_of_getElem? hentry')).ne
          simp only [List.eraseIdx_cons_succ, List.map_cons]
          rw [ih hrest hentry', List.filter_cons_of_pos (by simpa using hnot)]

/-- The lowest number is that of the first entry. -/
theorem oldest_ascending (hascending : queue.Pairwise fun first second => first.seq < second.seq) :
    oldest queue = queue.head? := by
  cases queue with
  | nil => rfl
  | cons first rest =>
      have hfold : ∀ (entries : List QueueEntry), (∀ later ∈ entries, first.seq ≤ later.seq) →
          entries.foldl (fun a b => if a.seq ≤ b.seq then a else b) first = first := by
        intro entries
        induction entries with
        | nil => exact fun _ => rfl
        | cons second others ih =>
            intro hle
            rw [List.foldl_cons, if_pos (hle second List.mem_cons_self)]
            exact ih fun later hlater => hle later (List.mem_cons_of_mem _ hlater)
      have hle : ∀ later ∈ first :: rest, first.seq ≤ later.seq := by
        intro later hlater
        rcases List.mem_cons.mp hlater with rfl | hrest
        · exact le_rfl
        · exact ((List.pairwise_cons.mp hascending).1 later hrest).le
      simp only [oldest, hfold _ hle, List.head?_cons]

theorem lowestSeq_ascending {first : QueueEntry} {rest : List QueueEntry}
    (hascending : (first :: rest).Pairwise fun a b => a.seq < b.seq) :
    Store.lowestSeq first rest = first := by
  have hfirst := (List.pairwise_cons.mp hascending).1
  clear hascending
  unfold Store.lowestSeq
  induction rest with
  | nil => rfl
  | cons second rest ih =>
      rw [List.foldl_cons, if_pos (hfirst second List.mem_cons_self).le]
      exact ih fun later hlater => hfirst later (List.mem_cons_of_mem _ hlater)

/-- What a full queue drops, and what it holds then: on the way to the same in both stores. -/
theorem addEntry_ascending {store : Store}
    (hascending : store.queue.Pairwise fun first second => first.seq < second.seq)
    (hroom : store.kind = .indexedDb ∨ 1 ≤ store.maxQueueLength) (added : QueueEntry) :
    store.addEntry added =
      if store.queue.length + 1 > store.maxQueueLength then
        (store.queue.tail ++ [added], store.queue.head?)
      else (store.queue ++ [added], none) := by
  unfold Store.addEntry
  cases hqueue : store.queue with
  | nil =>
      cases hkind : store.kind with
      | memory =>
          have hcap : ¬ 0 + 1 > store.maxQueueLength := by
            rcases hroom with hother | hcap
            · cases hkind.symm.trans hother
            · omega
          simp [hcap]
      | indexedDb => simp
  | cons first rest =>
      rw [hqueue] at hascending
      have hothers : (first :: rest).filter (·.seq ≠ first.seq) = rest := by
        rw [List.filter_cons_of_neg (by simp)]
        apply List.filter_eq_self.mpr
        intro later hlater
        exact decide_eq_true ((List.pairwise_cons.mp hascending).1 later hlater).ne'
      cases store.kind with
      | memory => simp
      | indexedDb =>
          simp only [lowestSeq_ascending hascending, hothers, List.length_cons, List.tail_cons,
            List.head?_cons]

end Queue

namespace Mirrors

variable {stored : CursorStore} {db : IndexedDbStore}

theorem enqueue (h : Mirrors stored db)
    (hroom : stored.store.kind = .indexedDb ∨ 1 ≤ stored.store.maxQueueLength)
    (write : QueuedWrite) :
    (stored.store.enqueue write).1 = (db.enqueue write).1 ∧
      Mirrors { stored with store := (stored.store.enqueue write).2 } (db.enqueue write).2 := by
  have hascending := h.ascending
  unfold Store.enqueue IndexedDbStore.enqueue
  rw [h.getAll]
  cases hfind : stored.store.queue.findIdx? (QueueEntry.sameRow · write.table write.id) with
  | some index =>
      obtain ⟨hlt, hsame, hfirst⟩ := List.findIdx?_eq_some_iff_getElem.mp hfind
      have hentry := List.getElem?_eq_getElem hlt
      have hfound : stored.store.queue.find? (QueueEntry.sameRow · write.table write.id) =
          some stored.store.queue[index] := by
        apply List.find?_eq_some_iff_getElem.mpr
        exact ⟨hsame, index, hlt, rfl, fun j hj => by simpa using hfirst j hj⟩
      have hgetD : stored.store.queue.getD index default = stored.store.queue[index] := by
        simp [List.getD, hentry]
      simp only [hfound, hgetD]
      refine ⟨trivial, h.rows, ?_, ?_, h.cap, h.cursors⟩
      · simp only [GeneratedStore.put, ObjectStore.put]
        rw [ObjectStore.place_present db.queue.objects.ascending, h.queue,
          map_set hascending hentry write]
        rw [h.queue]
        exact ⟨_, List.mem_map_of_mem (List.mem_of_getElem? hentry), rfl⟩
      · have hbelow := db.queue.below (record stored.store.queue[index]) (by
          rw [h.queue]
          exact List.mem_map_of_mem (List.mem_of_getElem? hentry))
        have hmax : max db.queue.next (stored.store.queue[index].seq + 1) = db.queue.next :=
          max_eq_left hbelow
        simp only [GeneratedStore.put, hmax]
        exact h.next
  | none =>
      have hnone : stored.store.queue.find? (QueueEntry.sameRow · write.table write.id) = none := by
        rw [List.find?_eq_none]
        intro entry hentry
        simpa using List.findIdx?_eq_none_iff.mp hfind entry hentry
      have hrecords := GeneratedStore.add_records db.queue write.atSeq
      rw [h.queue, h.next] at hrecords
      simp only [hnone, addEntry_ascending hascending hroom, h.cap, oldest_ascending hascending]
      split
      · cases hqueue : stored.store.queue with
        | nil =>
            rw [hqueue] at hrecords
            exact ⟨by simp [GeneratedStore.add, h.next], h.rows, hrecords,
              congrArg (· + 1) h.next, rfl, h.cursors⟩
        | cons first rest =>
            have hleaves := hascending
            rw [hqueue] at hleaves hrecords
            have hfirst := (List.pairwise_cons.mp hleaves).1
            have hbelow : first.seq < stored.store.seq + 1 := by
              rw [← h.next]
              apply db.queue.below (record first)
              rw [h.queue, hqueue]
              exact List.mem_cons_self
            have hstay : (rest ++ [write.atSeq (stored.store.seq + 1)]).map record =
                ((rest ++ [write.atSeq (stored.store.seq + 1)]).map record).filter
                  (·.1 ≠ first.seq) := by
              apply (List.filter_eq_self.mpr _).symm
              intro old hold
              obtain ⟨later, hlater, rfl⟩ := List.mem_map.mp hold
              apply decide_eq_true
              rcases List.mem_append.mp hlater with hrest | hadded
              · exact (hfirst later hrest).ne'
              · obtain rfl := List.mem_singleton.mp hadded
                exact hbelow.ne'
            refine ⟨by simp [GeneratedStore.add, h.next], h.rows, ?_, congrArg (· + 1) h.next, rfl,
              h.cursors⟩
            show (db.queue.add write.atSeq).2.objects.records.filter (·.1 ≠ first.seq) =
              (rest ++ [write.atSeq (stored.store.seq + 1)]).map record
            rw [hstay, hrecords]
            simp [record, QueuedWrite.atSeq]
      · exact ⟨by simp [GeneratedStore.add, h.next], h.rows, by
          rw [hrecords]; simp [record, QueuedWrite.atSeq], congrArg (· + 1) h.next, rfl, h.cursors⟩

theorem retire (h : Mirrors stored db) (seq : Nat) :
    Mirrors { stored with store := stored.store.retire seq }
      { db with queue := db.queue.delete seq } := by
  refine ⟨h.rows, ?_, h.next, h.cap, h.cursors⟩
  show db.queue.objects.records.filter (·.1 ≠ seq) =
    (stored.store.queue.filter (·.seq ≠ seq)).map record
  rw [h.queue, List.filter_map]
  rfl

theorem settleAck (h : Mirrors stored db) (options : SettleOptions) :
    (stored.store.settleAck options).1 = (db.settleAck options).1 ∧
      Mirrors { stored with store := (stored.store.settleAck options).2 }
        (db.settleAck options).2 := by
  unfold Store.settleAck IndexedDbStore.settleAck
  rw [h.get_queue, h.rows]
  cases hfind : stored.store.queue.findIdx? (·.seq = options.seq) with
  | none =>
      have hnone : stored.store.queue.find? (·.seq = options.seq) = none := by
        rw [List.find?_eq_none]
        intro entry hentry
        simpa using List.findIdx?_eq_none_iff.mp hfind entry hentry
      rw [hnone]
      exact ⟨rfl, h⟩
  | some index =>
      obtain ⟨hlt, hseq, hfirst⟩ := List.findIdx?_eq_some_iff_getElem.mp hfind
      have hentry := List.getElem?_eq_getElem hlt
      have hfound : stored.store.queue.find? (·.seq = options.seq) =
          some stored.store.queue[index] := by
        apply List.find?_eq_some_iff_getElem.mpr
        exact ⟨hseq, index, hlt, rfl, fun j hj => by simpa using hfirst j hj⟩
      have hgetD : stored.store.queue.getD index default = stored.store.queue[index] := by
        simp [List.getD, hentry]
      have hspliced : Mirrors
          { stored with
            store :=
              { stored.store with
                queue := stored.store.queue.eraseIdx index,
                detached := stored.store.queue[index] :: stored.store.detached } }
          { db with queue := db.queue.delete options.seq } := by
        refine ⟨h.rows, ?_, h.next, h.cap, h.cursors⟩
        have hsame : stored.store.queue[index].seq = options.seq := by simpa using hseq
        show db.queue.objects.records.filter (·.1 ≠ options.seq) =
          (stored.store.queue.eraseIdx index).map record
        rw [map_eraseIdx h.ascending hentry, hsame, h.queue]
      simp only [hfound, hgetD, Store.getRow]
      cases hrow : stored.store.rows (rowKey options.table options.id) with
      | none => exact ⟨rfl, h⟩
      | some current =>
          dsimp only
          generalize settleQueuedAck _ _ _ _ _ = settlement
          cases hretires : settlement.retireCurrentSlot with
          | false => exact ⟨rfl, h⟩
          | true =>
              cases hadopt : settlement.adopt with
              | none => exact ⟨rfl, hspliced⟩
              | some version => exact ⟨rfl, hspliced.with_row _ _ _⟩

end Mirrors

theorem cursorKey_injective : Function.Injective cursorKey := by
  intro first second h
  exact String.append_right_inj _ |>.mp h

end IndexedDbStore

/-- The call may bring a new entry into the queue. -/
def StoreCall.Enqueues : StoreCall → Prop
  | .enqueue _ => True
  | _ => False

instance : DecidablePred StoreCall.Enqueues := fun call =>
  match call with
  | .enqueue _ => inferInstanceAs (Decidable True)
  | .getRow _ _ | .putRow _ _ _ _ | .removeRow _ _ _ | .pending | .retire _ | .settleAck _
  | .getCursor _ | .setCursor _ _ _ => inferInstanceAs (Decidable False)

namespace IndexedDbStore

/-- Where the queue has room for an entry, or the call brings none, the stores answer
alike and still hold the same. -/
theorem Mirrors.call {stored : CursorStore} {db : IndexedDbStore} (h : Mirrors stored db)
    (call : StoreCall)
    (hroom : call.Enqueues → stored.store.kind = .indexedDb ∨ 1 ≤ stored.store.maxQueueLength) :
    (stored.call call).1 = (db.call call).1 ∧
      Mirrors (stored.call call).2 (db.call call).2 := by
  cases call with
  | getRow table id => exact ⟨congrArg StoreReply.row (h.rows _).symm, h⟩
  | putRow table id row rowMeta => exact ⟨rfl, h.with_row table id _⟩
  | removeRow table id rowMeta => exact ⟨rfl, h.with_row table id _⟩
  | enqueue write =>
      obtain ⟨hreply, hnext⟩ := h.enqueue (hroom trivial) write
      have hqueued := congrArg
        (fun reply : Nat × Option QueueEntry => StoreReply.queued reply.1 reply.2) hreply
      exact ⟨hqueued, hnext⟩
  | pending => exact ⟨congrArg StoreReply.entries h.getAll.symm, h⟩
  | retire seq => exact ⟨rfl, h.retire seq⟩
  | settleAck options =>
      obtain ⟨hreply, hnext⟩ := h.settleAck options
      exact ⟨congrArg (fun reply : Bool × Bool => StoreReply.settled reply.1 reply.2) hreply, hnext⟩
  | getCursor scope => exact ⟨congrArg StoreReply.cursor (h.cursors scope).symm, h⟩
  | setCursor scope cursor atMs =>
      refine ⟨rfl, h.rows, h.queue, h.next, h.cap, ?_⟩
      intro other
      simp only [IndexedDbStore.call, CursorStore.call, ObjectStore.get_put,
        cursorKey_injective.eq_iff, h.cursors]

theorem mirrors_fresh (kind : StoreKind) (maxQueueLength : Nat) :
    Mirrors (.fresh kind maxQueueLength) (opened maxQueueLength) :=
  ⟨fun _ => rfl, rfl, rfl, rfl, fun _ => rfl⟩

end IndexedDbStore

/-- A store keeps its kind and its cap. -/
theorem CursorStore.call_same (stored : CursorStore) (call : StoreCall) :
    (stored.call call).2.store.kind = stored.store.kind ∧
      (stored.call call).2.store.maxQueueLength = stored.store.maxQueueLength := by
  cases call with
  | enqueue write =>
      simp only [CursorStore.call, Store.enqueue]
      split <;> exact ⟨rfl, rfl⟩
  | settleAck options =>
      simp only [CursorStore.call, Store.settleAck]
      repeat' split
      all_goals exact ⟨rfl, rfl⟩
  | _ => exact ⟨rfl, rfl⟩

/-- The store of the model under IndexedDB, and the database, answer every run of calls
alike. -/
theorem indexedDb_replies_eq (maxQueueLength : Nat) (calls : List StoreCall) :
    Run.replies CursorStore.call (.fresh .indexedDb maxQueueLength) calls =
      Run.replies IndexedDbStore.call (.opened maxQueueLength) calls := by
  apply Run.replies_eq fun stored db =>
    IndexedDbStore.Mirrors stored db ∧ stored.store.kind = .indexedDb
  · rintro call - stored db ⟨hmirrors, hkind⟩
    obtain ⟨hreply, hnext⟩ := hmirrors.call call fun _ => Or.inl hkind
    exact ⟨hreply, hnext, (stored.call_same call).1.trans hkind⟩
  · exact ⟨IndexedDbStore.mirrors_fresh _ _, rfl⟩

theorem CursorStore.call_empty {stored : CursorStore} {call : StoreCall} (h : ¬ call.Enqueues)
    (hempty : stored.store.queue = []) : (stored.call call).2.store.queue = [] := by
  cases call with
  | enqueue write => exact absurd trivial h
  | retire seq => simp [CursorStore.call, Store.retire, hempty]
  | settleAck options => simp [CursorStore.call, Store.settleAck, hempty]
  | _ => exact hempty

/-- A `MemoryStore` and the database answer every run of calls alike, the writes they drop
included, exactly when the queue may hold an entry or none is brought: with no room for
any, `MemoryStore` drops the new entry and the database keeps it. -/
theorem stores_agree_iff (maxQueueLength : Nat) (calls : List StoreCall) :
    Run.replies CursorStore.call (.fresh .memory maxQueueLength) calls =
        Run.replies IndexedDbStore.call (.opened maxQueueLength) calls ↔
      1 ≤ maxQueueLength ∨ ∀ call ∈ calls, ¬ call.Enqueues := by
  let related := fun (stored : CursorStore) (db : IndexedDbStore) =>
    IndexedDbStore.Mirrors stored db ∧ stored.store.kind = .memory ∧
      stored.store.maxQueueLength = maxQueueLength
  let emptied := fun (stored : CursorStore) (db : IndexedDbStore) =>
    related stored db ∧ stored.store.queue = []
  have hmatches : ∀ call : StoreCall, (call.Enqueues → 1 ≤ maxQueueLength) →
      Run.Matches CursorStore.call IndexedDbStore.call related call := by
    rintro call hroom stored db ⟨hmirrors, hkind, hcap⟩
    obtain ⟨hreply, hnext⟩ := hmirrors.call call fun henqueues =>
      Or.inr (hcap ▸ hroom henqueues)
    obtain ⟨hsameKind, hsameCap⟩ := stored.call_same call
    exact ⟨hreply, hnext, hsameKind.trans hkind, hsameCap.trans hcap⟩
  have hfresh : related (.fresh .memory maxQueueLength) (.opened maxQueueLength) :=
    ⟨IndexedDbStore.mirrors_fresh _ _, rfl, rfl⟩
  constructor
  · intro hsame
    by_contra hnone
    obtain ⟨hcap, hcall⟩ := not_or.mp hnone
    have hzero : maxQueueLength = 0 := by omega
    refine Run.replies_ne emptied StoreCall.Enqueues ?_ ?_ ?_
      ⟨hfresh, rfl⟩ hsame
    · rintro call hother stored db ⟨hrelated, hempty⟩
      obtain ⟨hreply, hnext⟩ := hmatches call (fun henqueues => absurd henqueues hother) stored db
        hrelated
      exact ⟨hreply, hnext, CursorStore.call_empty hother hempty⟩
    · rintro call henqueues stored db ⟨⟨hmirrors, hkind, hroom⟩, hempty⟩
      cases call with
      | enqueue write =>
          have hnoEntries : db.queue.getAll = [] := hmirrors.getAll.trans hempty
          have hnoRoom : stored.store.maxQueueLength = 0 := hroom.trans hzero
          simp [CursorStore.call, IndexedDbStore.call, Store.enqueue, IndexedDbStore.enqueue,
            Store.addEntry, hempty, hkind, hnoRoom, hnoEntries, hmirrors.cap, IndexedDbStore.oldest]
      | _ => exact henqueues.elim
    · simpa using hcall
  · rintro (hcap | hnone)
    · exact Run.replies_eq related (fun call _ => hmatches call fun _ => hcap) hfresh
    · exact Run.replies_eq related (fun call hmem =>
        hmatches call fun henqueues => absurd henqueues (hnone call hmem)) hfresh

end ZedSync.Js
