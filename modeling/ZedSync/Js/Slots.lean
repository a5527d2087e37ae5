import ZedSync.Js.Delivery
import ZedSync.Js.Settlement

/-!
The queue of a browser store as a set of slots: one for a row, each with a
sequence number of its own. What each store operation of the client does to the
slots and to the rows, one lemma for each.
-/

namespace ZedSync.Js

namespace Store

/-- One slot for a row, and distinct sequence numbers up to the store's own. -/
structure Slots (store : Store) : Prop where
  distinct : (store.queue.map (·.seq)).Nodup
  bounded : ∀ entry ∈ store.queue, entry.seq ≤ store.seq
  single : ∀ entry ∈ store.queue, ∀ other ∈ store.queue,
    entry.sameRow other.table other.id = true → entry = other

variable {store : Store} {entry other : QueueEntry} {table id : String}

theorem sameRow_iff : entry.sameRow table id = true ↔ entry.table = table ∧ entry.id = id := by
  simp [QueueEntry.sameRow]

theorem not_sameRow_iff :
    entry.sameRow table id = false ↔ ¬ (entry.table = table ∧ entry.id = id) := by
  rw [← sameRow_iff, Bool.not_eq_true]

theorem Slots.eq_of_seq (h : store.Slots) (hentry : entry ∈ store.queue)
    (hother : other ∈ store.queue) (hseq : entry.seq = other.seq) : entry = other :=
  List.inj_on_of_nodup_map h.distinct hentry hother hseq

/-- An entry is queued at one place. -/
theorem Slots.place_eq (h : store.Slots) {first second : Nat}
    (hfirst : store.queue[first]? = some entry) (hsecond : store.queue[second]? = some entry) :
    first = second := by
  have hplaces : (store.queue.map (·.seq))[first]? = (store.queue.map (·.seq))[second]? := by
    rw [List.getElem?_map, List.getElem?_map, hfirst, hsecond]
  have hlength : first < (store.queue.map (·.seq)).length := by
    rw [List.length_map]
    exact (List.getElem?_eq_some_iff.mp hfirst).1
  exact (List.getElem?_inj hlength h.distinct).mp hplaces

theorem Slots.mem_eraseIdx (h : store.Slots) {index : Nat}
    (hslot : store.queue[index]? = some entry) :
    other ∈ store.queue.eraseIdx index ↔ other ∈ store.queue ∧ other ≠ entry := by
  rw [List.mem_eraseIdx_iff_getElem?]
  constructor
  · rintro ⟨place, hplace, hother⟩
    refine ⟨List.mem_of_getElem? hother, ?_⟩
    rintro rfl
    exact hplace (h.place_eq hother hslot)
  · rintro ⟨hother, hne⟩
    obtain ⟨place, hother⟩ := List.mem_iff_getElem?.mp hother
    refine ⟨place, ?_, hother⟩
    rintro rfl
    rw [hslot] at hother
    exact hne (Option.some.inj hother).symm

/-- No rows and no queued writes. -/
structure Empty (store : Store) : Prop where
  rows : ∀ key, store.rows key = none
  queue : store.queue = []

theorem Empty.slots (h : store.Empty) : store.Slots := by
  refine ⟨?_, ?_, ?_⟩
  · rw [h.queue]
    exact List.nodup_nil
  · simp [h.queue]
  · simp [h.queue]

/-- A put leaves the rows of other keys as they are. -/
theorem setRow_others (stored : StoredRow) (key : String) (hkey : key ≠ rowKey table id) :
    (store.setRow table id stored).rows key = store.rows key := if_neg hkey

/-- Fewer entries, under the same counter. -/
theorem Slots.of_sublist {after : Store} (h : store.Slots)
    (hqueue : after.queue.Sublist store.queue) (hseq : after.seq = store.seq) : after.Slots := by
  refine ⟨h.distinct.sublist (hqueue.map _), ?_, ?_⟩
  · intro entry hentry
    rw [hseq]
    exact h.bounded entry (hqueue.subset hentry)
  · intro entry hentry other hother hsame
    exact h.single entry (hqueue.subset hentry) other (hqueue.subset hother) hsame

theorem Slots.of_same {after : Store} (h : store.Slots) (hqueue : after.queue = store.queue)
    (hseq : after.seq = store.seq) : after.Slots :=
  h.of_sublist (hqueue ▸ List.Sublist.refl _) hseq

/-- An entry keeps its sequence number, whatever it reads as. -/
theorem deref_seq (store : Store) (entry : QueueEntry) : (store.deref entry).seq = entry.seq := by
  unfold deref
  split
  · rfl
  · split
    · rename_i current hfound
      simpa using List.find?_some hfound
    · rfl

/-- The entries of a database are sent as they were read. -/
theorem deref_indexedDb (h : store.kind = .indexedDb) (entry : QueueEntry) :
    store.deref entry = entry := by
  unfold deref
  rw [h]

/-- An entry still queued reads as itself. -/
theorem Slots.deref (h : store.Slots) (hentry : entry ∈ store.queue) :
    store.deref entry = entry := by
  unfold Store.deref
  cases store.kind with
  | indexedDb => rfl
  | memory =>
      cases hfound : (store.queue ++ store.detached).find? (·.seq = entry.seq) with
      | none => rfl
      | some current =>
          have hin : (store.queue.find? (·.seq = entry.seq)).isSome = true := by
            rw [List.find?_isSome]
            exact ⟨entry, hentry, by simp⟩
          obtain ⟨first, hfirst⟩ := Option.isSome_iff_exists.mp hin
          rw [List.find?_append, hfirst, Option.some_or] at hfound
          obtain rfl := Option.some.inj hfound
          have hseq : first.seq = entry.seq := by simpa using List.find?_some hfirst
          exact h.eq_of_seq (List.mem_of_find?_eq_some hfirst) hentry hseq

section Enqueue

variable {write : QueuedWrite}

/-- Below its bound a store only adds the entry. -/
theorem addEntry_queue {added : QueueEntry} (hroom : (store.addEntry added).2 = none) :
    (store.addEntry added).1 = store.queue ++ [added] := by
  unfold addEntry at hroom ⊢
  split at hroom
  · dsimp only at hroom ⊢
    split at hroom
    · rename_i hover
      have hlength : 0 < (store.queue ++ [added]).length := by simp
      rw [List.head?_eq_getElem?, List.getElem?_eq_getElem hlength] at hroom
      cases hroom
    · rename_i hunder
      rw [if_neg hunder]
  · rename_i hqueue
    rw [hqueue]
    rfl
  · rename_i hqueue
    rw [hqueue]
    dsimp only at hroom ⊢
    split at hroom
    · cases hroom
    · rename_i hunder
      rw [if_neg hunder]

/-- The entry a write takes over, if its row has one. -/
theorem enqueue_coalesced {index : Nat} {old : QueueEntry}
    (hindex : store.queue.findIdx? (QueueEntry.sameRow · write.table write.id) = some index)
    (hold : store.queue[index]? = some old) :
    store.enqueue write =
      ((old.seq, none), { store with queue := store.queue.set index (write.atSeq old.seq) }) := by
  have hget : store.queue.getD index default = old := by
    simp [List.getD_eq_getElem?_getD, hold]
  simp only [enqueue, hindex, hget]

theorem enqueue_added
    (hindex : store.queue.findIdx? (QueueEntry.sameRow · write.table write.id) = none)
    (hroom : (store.enqueue write).1.2 = none) :
    (store.enqueue write).1 = (store.seq + 1, none) ∧
      (store.enqueue write).2 =
        { store with
          seq := store.seq + 1, queue := store.queue ++ [write.atSeq (store.seq + 1)] } := by
  simp only [enqueue, hindex] at hroom ⊢
  have hqueue := addEntry_queue hroom
  simp only [hroom, hqueue, Option.toList_none, List.nil_append, and_self]

/-- The entries after a write took its row's slot, by membership. -/
def Takes (store : Store) (write : QueuedWrite) (seq : Nat) (queue : List QueueEntry) : Prop :=
  ∀ entry, entry ∈ queue ↔
    entry = write.atSeq seq ∨
      entry ∈ store.queue ∧ entry.sameRow write.table write.id = false

/-- A row still has one slot after a write took its own. -/
theorem Slots.single_of_takes (h : store.Slots) {seq : Nat} {queue : List QueueEntry}
    (htakes : store.Takes write seq queue) :
    ∀ entry ∈ queue, ∀ other ∈ queue,
      entry.sameRow other.table other.id = true → entry = other := by
  intro entry hentry other hother hsame
  rcases (htakes entry).mp hentry with rfl | ⟨hentry, hrow⟩
  · rcases (htakes other).mp hother with rfl | ⟨-, hrow⟩
    · rfl
    · have heq := sameRow_iff.mp hsame
      exact absurd ⟨heq.1.symm, heq.2.symm⟩ (not_sameRow_iff.mp hrow)
  · rcases (htakes other).mp hother with rfl | ⟨hother, -⟩
    · exact absurd (sameRow_iff.mp hsame) (not_sameRow_iff.mp hrow)
    · exact h.single entry hentry other hother hsame

/-- Replacing the slot of a row replaces its one entry. -/
theorem Slots.takes_set (h : store.Slots) {index : Nat} {old : QueueEntry}
    (hold : store.queue[index]? = some old)
    (hrow : old.sameRow write.table write.id = true) :
    store.Takes write old.seq (store.queue.set index (write.atSeq old.seq)) := by
  obtain ⟨hlt, -⟩ := List.getElem?_eq_some_iff.mp hold
  have hnames := sameRow_iff.mp hrow
  intro entry
  rw [List.mem_iff_getElem?]
  constructor
  · rintro ⟨place, hentry⟩
    by_cases hplace : place = index
    · subst hplace
      rw [List.getElem?_set_self hlt] at hentry
      exact Or.inl (Option.some.inj hentry).symm
    · rw [List.getElem?_set_ne (Ne.symm hplace)] at hentry
      refine Or.inr ⟨List.mem_of_getElem? hentry, not_sameRow_iff.mpr fun heq => ?_⟩
      have hsame : entry = old :=
        h.single entry (List.mem_of_getElem? hentry) old (List.mem_of_getElem? hold)
          (sameRow_iff.mpr ⟨heq.1.trans hnames.1.symm, heq.2.trans hnames.2.symm⟩)
      rw [hsame] at hentry
      exact hplace (h.place_eq hentry hold)
  · rintro (rfl | ⟨hentry, hother⟩)
    · exact ⟨index, List.getElem?_set_self hlt⟩
    · obtain ⟨place, hentry⟩ := List.mem_iff_getElem?.mp hentry
      refine ⟨place, ?_⟩
      rw [List.getElem?_set_ne]
      · exact hentry
      · rintro rfl
        rw [hold] at hentry
        obtain rfl := Option.some.inj hentry
        exact not_sameRow_iff.mp hother hnames

/-- A write that no slot takes gets one of its own. -/
theorem Slots.add (h : store.Slots)
    (hother : ∀ entry ∈ store.queue, entry.sameRow write.table write.id = false) :
    Slots { store with
      seq := store.seq + 1, queue := store.queue ++ [write.atSeq (store.seq + 1)] } ∧
      store.Takes write (store.seq + 1) (store.queue ++ [write.atSeq (store.seq + 1)]) := by
  have htakes : store.Takes write (store.seq + 1)
      (store.queue ++ [write.atSeq (store.seq + 1)]) := by
    intro entry
    rw [List.mem_append, List.mem_singleton, or_comm]
    exact or_congr_right ⟨fun hentry => ⟨hentry, hother entry hentry⟩, And.left⟩
  refine ⟨⟨?_, ?_, h.single_of_takes htakes⟩, htakes⟩
  · have hnew : store.seq + 1 ∉ store.queue.map (·.seq) := by
      intro hseq
      obtain ⟨entry, hentry, heq⟩ := List.mem_map.mp hseq
      have hle := h.bounded entry hentry
      omega
    simp only [List.map_append, List.map_cons, List.map_nil]
    apply List.nodup_append.mpr
    refine ⟨h.distinct, by simp, ?_⟩
    intro seq hseq other hlast heq
    apply hnew
    rwa [heq, List.mem_singleton.mp hlast] at hseq
  · intro entry hentry
    rcases (htakes entry).mp hentry with rfl | ⟨hold, -⟩
    · exact Nat.le_refl _
    · exact Nat.le_succ_of_le (h.bounded entry hold)

/-- An enqueue below the bound: the write has its row's slot, and the other slots
are as they were. -/
theorem Slots.enqueue (h : store.Slots) (hroom : (store.enqueue write).1.2 = none) :
    (store.enqueue write).2.Slots ∧
      store.Takes write (store.enqueue write).1.1 (store.enqueue write).2.queue := by
  cases hindex : store.queue.findIdx? (QueueEntry.sameRow · write.table write.id) with
  | none =>
      obtain ⟨hreply, hafter⟩ := enqueue_added hindex hroom
      have hother : ∀ entry ∈ store.queue, entry.sameRow write.table write.id = false := by
        simpa using List.findIdx?_eq_none_iff.mp hindex
      rw [hreply, hafter]
      exact h.add hother
  | some index =>
      obtain ⟨hlt, hsameRow, -⟩ := List.findIdx?_eq_some_iff_getElem.mp hindex
      have hold : store.queue[index]? = some store.queue[index] := List.getElem?_eq_getElem hlt
      generalize store.queue[index] = old at hold hsameRow
      have htakes := h.takes_set hold hsameRow
      rw [enqueue_coalesced hindex hold]
      refine ⟨⟨?_, ?_, h.single_of_takes htakes⟩, htakes⟩
      · have hseqs : (store.queue.set index (write.atSeq old.seq)).map (·.seq) =
            store.queue.map (·.seq) := by
          apply List.ext_getElem?
          intro place
          rw [List.map_set]
          by_cases hplace : place = index
          · subst hplace
            rw [List.getElem?_set_self (by simpa using hlt), List.getElem?_map, hold]
            rfl
          · rw [List.getElem?_set_ne (Ne.symm hplace)]
        show ((store.queue.set index (write.atSeq old.seq)).map (·.seq)).Nodup
        rw [hseqs]
        exact h.distinct
      · intro entry hentry
        rcases (htakes entry).mp hentry with rfl | ⟨hentry, -⟩
        · exact h.bounded old (List.mem_of_getElem? hold)
        · exact h.bounded entry hentry

/-- What is queued was, or is the write. -/
theorem mem_enqueue (h : entry ∈ (store.enqueue write).2.queue) :
    entry ∈ store.queue ∨ entry.toQueuedWrite = write := by
  unfold Store.enqueue at h
  split at h
  · refine (List.mem_or_eq_of_mem_set h).imp_right ?_
    rintro rfl
    rfl
  · refine (store.addEntry_subset _ entry (Or.inl h)).imp_right ?_
    rintro rfl
    rfl

theorem enqueue_kind (store : Store) (write : QueuedWrite) :
    (store.enqueue write).2.kind = store.kind := by
  unfold enqueue
  split <;> rfl

/-- A database at its bound drops an entry, and adds the new one. -/
theorem enqueue_dropped {dropped : QueueEntry} (hkind : store.kind = .indexedDb)
    (hdrop : (store.enqueue write).1.2 = some dropped) :
    store.queue.findIdx? (QueueEntry.sameRow · write.table write.id) = none ∧
      (store.enqueue write).1.1 = store.seq + 1 ∧
      dropped ∈ store.queue ∧
      (store.enqueue write).2.queue =
        (store.retire dropped.seq).queue ++ [write.atSeq (store.seq + 1)] ∧
      (store.enqueue write).2.seq = store.seq + 1 := by
  cases hindex : store.queue.findIdx? (QueueEntry.sameRow · write.table write.id) with
  | some index => simp [enqueue, hindex] at hdrop
  | none =>
      simp only [enqueue, hindex] at hdrop ⊢
      refine ⟨trivial, trivial, ?_⟩
      cases hqueue : store.queue with
      | nil => simp [addEntry, hkind, hqueue] at hdrop
      | cons first rest =>
          by_cases hover : rest.length + 2 > store.maxQueueLength
          · simp only [addEntry, hkind, hqueue, if_pos hover, Option.some.injEq] at hdrop ⊢
            subst hdrop
            simp only [retire, hqueue, and_true]
            exact lowestSeq_mem first rest
          · simp [addEntry, hkind, hqueue, hover] at hdrop

/-- An enqueue into a database: the write has its row's slot, and the others keep
theirs but for the one dropped. -/
theorem Slots.enqueue_database (h : store.Slots) (hkind : store.kind = .indexedDb)
    (write : QueuedWrite) :
    (store.enqueue write).2.Slots ∧
      write.atSeq (store.enqueue write).1.1 ∈ (store.enqueue write).2.queue ∧
      ∀ entry ∈ store.queue, entry.sameRow write.table write.id = false →
        entry ∉ (store.enqueue write).1.2.toList → entry ∈ (store.enqueue write).2.queue := by
  cases hdrop : (store.enqueue write).1.2 with
  | none =>
      obtain ⟨hslots, htakes⟩ := h.enqueue hdrop
      exact ⟨hslots, (htakes _).mpr (Or.inl rfl),
        fun entry hentry hrow _ => (htakes entry).mpr (Or.inr ⟨hentry, hrow⟩)⟩
  | some dropped =>
      obtain ⟨hindex, hseq, hdropped, hqueue, hafter⟩ := enqueue_dropped hkind hdrop
      have hother : ∀ entry ∈ store.queue, entry.sameRow write.table write.id = false := by
        simpa using List.findIdx?_eq_none_iff.mp hindex
      have hslots : (store.enqueue write).2.Slots := by
        refine (h.add hother).1.of_sublist ?_ hafter
        rw [hqueue]
        exact List.filter_sublist.append (List.Sublist.refl _)
      refine ⟨hslots, ?_, fun entry hentry _ hother => ?_⟩
      · rw [hseq, hqueue]
        exact List.mem_append_right _ (List.mem_singleton_self _)
      · rw [hqueue]
        refine List.mem_append_left _ (List.mem_filter.mpr ⟨hentry, ?_⟩)
        simp only [decide_eq_true_eq, ne_eq]
        intro hsameSeq
        obtain rfl := h.eq_of_seq hentry hdropped hsameSeq
        simp at hother

end Enqueue

/-- What a settlement does to the queue: nothing, or one entry leaves it. -/
theorem settleAck_queue (store : Store) (options : SettleOptions) :
    (store.settleAck options).2.seq = store.seq ∧
      ((store.settleAck options).2.queue = store.queue ∧
          (store.settleAck options).2.detached = store.detached ∨
        ∃ index entry, store.queue[index]? = some entry ∧
          (store.settleAck options).2.queue = store.queue.eraseIdx index ∧
          (store.settleAck options).2.detached = entry :: store.detached) := by
  unfold settleAck
  split
  · exact ⟨rfl, Or.inl ⟨rfl, rfl⟩⟩
  · rename_i index hindex
    obtain ⟨hlt, _⟩ := List.findIdx?_eq_some_iff_getElem.mp hindex
    have hslot : store.queue[index]? = some (store.queue.getD index default) := by
      simp [List.getElem?_eq_getElem hlt]
    dsimp only
    split
    · exact ⟨rfl, Or.inl ⟨rfl, rfl⟩⟩
    · split
      · exact ⟨rfl, Or.inl ⟨rfl, rfl⟩⟩
      · split
        · exact ⟨rfl, Or.inr ⟨index, _, hslot, rfl, rfl⟩⟩
        · exact ⟨rfl, Or.inr ⟨index, _, hslot, rfl, rfl⟩⟩

/-- Without its row an acknowledgement settles nothing. -/
theorem settleAck_absent {options : SettleOptions}
    (hrow : store.getRow options.table options.id = none) :
    (store.settleAck options).2 = store := by
  unfold settleAck
  split
  · rfl
  · simp only [hrow]

/-- An acknowledgement that does not answer the slot it finds settles nothing. -/
theorem settleAck_inexact {options : SettleOptions} {index : Nat} {stored : StoredRow}
    (hfound : store.queue.findIdx? (·.seq = options.seq) = some index)
    (hslot : store.queue[index]? = some entry)
    (hrow : store.getRow options.table options.id = some stored)
    (hinexact : ¬ ExactAck entry.id entry.key options.writeKey stored.localRow
      options.baseVersion options.id) :
    (store.settleAck options).2 = store := by
  have hget : store.queue.getD index default = entry := by
    simp [List.getD_eq_getElem?_getD, hslot]
  have hsettle : settleQueuedAck
      { version := stored.rowMeta.version, dirty := stored.rowMeta.dirty } entry.toQueuedWrite
      options.writeKey options.baseVersion
      { id := options.id, committedVersion := options.committedVersion } =
      AckOutcome.superseded.settlement :=
    settleQueuedAck_inexact hinexact
  simp only [settleAck, hfound, hrow, hget, hsettle]
  rfl

/-- A settlement of a queued write refuses and leaves everything, or takes its slot
away and cleans its row. -/
theorem Slots.settleAck (h : store.Slots) (hentry : entry ∈ store.queue)
    (committedVersion : Option Hlc) (now : Nat) :
    let after := (store.settleAck (.ofEntry entry committedVersion now)).2
    after = store ∨
      ∃ stored, store.getRow entry.table entry.id = some stored ∧ after.Slots ∧
        (∀ other, other ∈ after.queue ↔ other ∈ store.queue ∧ other ≠ entry) ∧
        after.rows = (store.setRow entry.table entry.id
          { row := stored.row
            rowMeta :=
              { version := committedVersion.getD entry.baseVersion, dirty := false,
                syncedAtMs := some now } }).rows := by
  intro after
  have hfound : ∃ index, store.queue.findIdx? (·.seq = entry.seq) = some index := by
    apply Option.isSome_iff_exists.mp
    rw [List.findIdx?_isSome, List.any_eq_true]
    exact ⟨entry, hentry, by simp⟩
  obtain ⟨index, hindex⟩ := hfound
  obtain ⟨hlt, hseq, -⟩ := List.findIdx?_eq_some_iff_getElem.mp hindex
  have hslot : store.queue[index]? = some entry := by
    have hsame := h.eq_of_seq (List.getElem_mem hlt) hentry (by simpa using hseq)
    rw [List.getElem?_eq_getElem hlt, hsame]
  cases hrow : store.getRow entry.table entry.id with
  | none => exact Or.inl (settleAck_absent hrow)
  | some stored =>
      by_cases hversion : stored.rowMeta.version = entry.baseVersion
      · have hexact : SettlesSlot store (.ofEntry entry committedVersion now) index entry stored :=
          ⟨hindex, hslot, hrow, ⟨rfl, rfl, hversion⟩⟩
        have hafter : after = _ := settleAck_exact hexact
        split at hafter
        · exact Or.inl hafter
        · have hqueue : after.queue = store.queue.eraseIdx index := congrArg Store.queue hafter
          have hslots : after.Slots := by
            apply h.of_sublist
            · rw [hqueue]
              exact List.eraseIdx_sublist _ _
            · exact (congrArg Store.seq hafter).trans rfl
          have hrows := (congrArg Store.rows hafter).trans rfl
          refine Or.inr ⟨stored, rfl, hslots, fun other => ?_, hrows⟩
          rw [hqueue]
          exact h.mem_eraseIdx hslot
      · exact Or.inl (settleAck_inexact hindex hslot hrow fun hexact => hversion hexact.version)

/-- A settlement leaves the slots of the other writes. -/
theorem Slots.settleAck_others (h : store.Slots) (hentry : entry ∈ store.queue)
    (hother : other ∈ store.queue) (hne : other ≠ entry) {committedVersion : Option Hlc}
    {now : Nat} :
    other ∈ (store.settleAck (.ofEntry entry committedVersion now)).2.queue := by
  rcases h.settleAck hentry committedVersion now with hsame | ⟨-, -, -, hqueue, -⟩
  · rw [hsame]
    exact hother
  · exact (hqueue other).mpr ⟨hother, hne⟩

/-- A settlement takes at most one entry away, and only under its own key. -/
theorem Slots.settles (h : store.Slots) (options : SettleOptions) :
    (store.settleAck options).2.Slots ∧ (store.settleAck options).2.kind = store.kind ∧
      ∀ entry ∈ store.queue,
        entry ∈ (store.settleAck options).2.queue ∨ entry.key = options.writeKey := by
  have hidle : (store.settleAck options).2 = store →
      (store.settleAck options).2.Slots ∧ (store.settleAck options).2.kind = store.kind ∧
        ∀ entry ∈ store.queue,
          entry ∈ (store.settleAck options).2.queue ∨ entry.key = options.writeKey := by
    intro hsame
    rw [hsame]
    exact ⟨h, rfl, fun entry hentry => Or.inl hentry⟩
  cases hfound : store.queue.findIdx? (·.seq = options.seq) with
  | none => exact hidle (by simp only [Store.settleAck, hfound])
  | some index =>
      obtain ⟨hlt, -, -⟩ := List.findIdx?_eq_some_iff_getElem.mp hfound
      have hslot : store.queue[index]? = some store.queue[index] := List.getElem?_eq_getElem hlt
      generalize store.queue[index] = settled at hslot
      cases hrow : store.getRow options.table options.id with
      | none => exact hidle (settleAck_absent hrow)
      | some stored =>
          by_cases hexact : ExactAck settled.id settled.key options.writeKey stored.localRow
              options.baseVersion options.id
          · have hafter := settleAck_exact ⟨hfound, hslot, hrow, hexact⟩
            split at hafter
            · exact hidle hafter
            · have hqueue := congrArg Store.queue hafter
              refine ⟨h.of_sublist ?_ ((congrArg Store.seq hafter).trans rfl),
                (congrArg Store.kind hafter).trans rfl, ?_⟩
              · rw [hqueue]
                exact List.eraseIdx_sublist _ _
              · intro entry hentry
                by_cases hother : entry = settled
                · exact Or.inr (hother ▸ hexact.key)
                · rw [hqueue]
                  exact Or.inl ((h.mem_eraseIdx hslot).mpr ⟨hentry, hother⟩)
          · exact hidle (settleAck_inexact hfound hslot hrow hexact)

theorem retireRow_sublist (table id : String) (entries : List QueueEntry) (store : Store) :
    (retireRow table id entries store).queue.Sublist store.queue ∧
      (retireRow table id entries store).seq = store.seq := by
  induction entries generalizing store with
  | nil => exact ⟨List.Sublist.refl _, rfl⟩
  | cons first rest ih =>
      rw [retireRow, List.foldl_cons, ← retireRow]
      split
      · obtain ⟨hqueue, hseq⟩ := ih (store.retire first.seq)
        exact ⟨hqueue.trans List.filter_sublist, hseq⟩
      · exact ih store

/-- Dropping the queued writes of a row leaves exactly the slots of the others. -/
theorem Slots.retireRow (h : store.Slots) (table id : String) :
    (Store.retireRow table id store.queue store).Slots ∧
      ∀ entry, entry ∈ (Store.retireRow table id store.queue store).queue ↔
        entry ∈ store.queue ∧ entry.sameRow table id = false := by
  obtain ⟨hqueue, hseq⟩ := retireRow_sublist table id store.queue store
  refine ⟨h.of_sublist hqueue hseq, fun entry => ?_⟩
  rw [mem_retireRow]
  refine and_congr_right fun hentry => ⟨fun hretired => ?_, fun hrow other hother hsame hseq => ?_⟩
  · by_contra hrow
    exact hretired entry hentry (by simpa using hrow) rfl
  · obtain rfl := h.eq_of_seq hentry hother hseq
    rw [hsame] at hrow
    cases hrow

end Store

/-- A table name without the separator of the row keys. The wire admits only lower
case letters, digits and underscores. -/
def Separable (table : String) : Prop := '\x00' ∉ table.toList

instance (table : String) : Decidable (Separable table) :=
  inferInstanceAs (Decidable ('\x00' ∉ table.toList))

/-- Every key is the key of a row of such a table. -/
theorem exists_separable (table id : String) :
    ∃ table' id', Separable table' ∧ rowKey table id = rowKey table' id' := by
  let first := table.toList.takeWhile (· ≠ '\x00')
  have hsplit : table.toList = first ++ table.toList.dropWhile (· ≠ '\x00') :=
    List.takeWhile_append_dropWhile.symm
  have hfirst : '\x00' ∉ first := by
    intro hmem
    have hother : decide ('\x00' ≠ '\x00') = true :=
      List.all_eq_true.mp List.all_takeWhile '\x00' hmem
    simp at hother
  cases hrest : table.toList.dropWhile (· ≠ '\x00') with
  | nil =>
      rw [hrest, List.append_nil] at hsplit
      exact ⟨table, id, by rwa [Separable, hsplit], rfl⟩
  | cons separator rest =>
      have hseparator : separator = '\x00' := by
        have hhead := List.head?_dropWhile_not (fun char => decide (char ≠ '\x00')) table.toList
        rw [hrest] at hhead
        simpa using hhead
      subst hseparator
      refine ⟨String.ofList first, String.ofList (rest ++ '\x00' :: id.toList), ?_, ?_⟩
      · simpa [Separable] using hfirst
      · apply String.toList_inj.mp
        rw [hrest] at hsplit
        simp [rowKey, String.toList_append, hsplit]

/-- Rows of such tables have a key each. -/
theorem rowKey_inj {table table' id id' : String} (htable : Separable table)
    (htable' : Separable table') (h : rowKey table id = rowKey table' id') :
    table = table' ∧ id = id' := by
  have hlist : table.toList ++ '\x00' :: id.toList = table'.toList ++ '\x00' :: id'.toList := by
    simpa [rowKey, String.toList_append] using congrArg String.toList h
  obtain ⟨hfirst, hsecond⟩ := Lexicographic.split_at_first htable htable' hlist
  exact ⟨String.toList_inj.mp hfirst, String.toList_inj.mp hsecond⟩

end ZedSync.Js
