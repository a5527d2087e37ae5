import Mathlib.Data.List.Nodup
import ZedSync.Dart.Delivery

/-!
Whether an acknowledged row leaves an older write behind, over the sequential
runs of one Dart client on a `MemoryStorage`. The queue has an entry for each
write, and the settlement of the newest one cleans the row whatever else of the
row is queued. The run stays sound while a write is acknowledged only once no
older write of its row is queued, and while no two rows share a row key.
-/

namespace ZedSync.Dart

open Async

/-- If a row is not dirty, the queue holds no write for it. -/
def RowsSettled (world : World) : Prop :=
  ∀ table id, (∀ stored, world.storage.getRow table id = some stored → stored.dirty = false) →
    ∀ write ∈ world.storage.queue, ¬ (write.table = table ∧ write.id = id)

/-- A change sent after an acknowledged write of its row is not older. -/
def Exchange.MayPrecede : Exchange → Exchange → Prop
  | .acked write, .sent change =>
      change.table = write.table → change.id = write.id → ¬ change.version < write.baseVersion
  | _, _ => True

instance : DecidableRel Exchange.MayPrecede := fun earlier later => by
  cases earlier <;> cases later <;> unfold Exchange.MayPrecede <;> infer_instance

/-- Nothing is sent that is older than an acknowledged write of the same row. -/
def SentAfterAcks (world : World) : Prop := world.exchanges.Pairwise Exchange.MayPrecede

instance (world : World) : Decidable (SentAfterAcks world) :=
  inferInstanceAs (Decidable (world.exchanges.Pairwise _))

/-- One call after another, with what the outside answers each. -/
def callStep (config : ClientConfig) (world : World) (made : Call × List Input) : World :=
  ((made.1.program config).run made.2 world).2

/-- The queue has no write for another row under the row's key. -/
def Apart (table id : String) (world : World) : Prop :=
  ∀ write ∈ world.storage.queue, rowKey write.table write.id = rowKey table id →
    write.table = table ∧ write.id = id

/-- The action settles no write while an older one of its row is queued. -/
def SettlesOldest (action : Action) (world : World) : Prop :=
  ∀ write committed, action = .settleAck write committed →
    ∀ older ∈ world.storage.queue, older.sameRow write.table write.id = true →
      ¬ older.baseVersion < write.baseVersion

instance (action : Action) (world : World) : Decidable (SettlesOldest action world) := by
  cases action with
  | settleAck write committed =>
      exact decidable_of_iff
        (∀ older ∈ world.storage.queue, older.sameRow write.table write.id = true →
          ¬ older.baseVersion < write.baseVersion) (by simp [SettlesOldest])
  | _ => exact .isTrue fun _ _ hsettle => by cases hsettle

instance (table id : String) (world : World) : Decidable (Apart table id world) :=
  inferInstanceAs (Decidable (∀ write ∈ world.storage.queue, _ → _))

/-- The calls of a client in the optimistic and local modes. -/
def Call.Optimistic (config : ClientConfig) : Call → Prop
  | .write _ _ _ options =>
      options.mode.getD config.writeMode ≠ .serverFirst ∧
        options.mode.getD config.writeMode ≠ .serverOnly
  | .applyChange _ | .flushQueue => True
  | .newClient => False

/-- No other row shares the row's key, and a write is acknowledged only once no
older write of its row is queued. -/
def AcksInOrder (config : ClientConfig) (world : World) (made : Call × List Input) : Prop :=
  match made.1 with
  | .applyChange incoming => Apart incoming.table incoming.id world
  | .write table id row options =>
      Apart table id world ∧
        (write config table id row options).Meets SettlesOldest made.2 world
  | .flushQueue | .newClient => True

instance (config : ClientConfig) (world : World) (made : Call × List Input) :
    Decidable (AcksInOrder config world made) := by
  unfold AcksInOrder
  split <;> infer_instance

namespace AckedRows

/-- Between two calls every queued write has its row dirty, and the queue is in
the order of the stamps, under keys minted one by one. -/
structure Inv (world : World) : Prop where
  dirty : ∀ write ∈ world.storage.queue, ∃ stored,
    world.storage.getRow write.table write.id = some stored ∧ stored.dirty = true
  apart : ∀ a ∈ world.storage.queue, ∀ b ∈ world.storage.queue,
    rowKey a.table a.id = rowKey b.table b.id → a.table = b.table ∧ a.id = b.id
  sorted : world.storage.queue.Pairwise fun a b => a.baseVersion < b.baseVersion
  stamped : ∀ write ∈ world.storage.queue, write.baseVersion ≤ world.clock.stamp
  keys : (world.storage.queue.map (·.key)).Nodup
  minted : ∀ write ∈ world.storage.queue, ∃ now seq, seq < world.keySeq ∧
    write.key = nextKey world.clock.actor now seq
  acked : ∀ write, .acked write ∈ world.exchanges → write.baseVersion ≤ world.clock.stamp ∧
    ∀ later ∈ world.storage.queue, later.sameRow write.table write.id = true →
      write.baseVersion ≤ later.baseVersion
  order : SentAfterAcks world

/-- Entries of one queue with one key are the same entry. -/
theorem Inv.eq_of_key {world : World} (h : Inv world) {a b : QueuedWrite}
    (ha : a ∈ world.storage.queue) (hb : b ∈ world.storage.queue) (hkey : a.key = b.key) :
    a = b :=
  List.inj_on_of_nodup_map h.keys ha hb hkey

/-- Entries of one queue with one stamp are the same entry. -/
theorem Inv.eq_of_version {world : World} (h : Inv world) {a b : QueuedWrite}
    (ha : a ∈ world.storage.queue) (hb : b ∈ world.storage.queue)
    (hversion : a.baseVersion = b.baseVersion) : a = b := by
  have hstamps : (world.storage.queue.map (·.baseVersion)).Nodup :=
    List.pairwise_map.mpr (h.sorted.imp fun hlt => hlt.ne)
  exact List.inj_on_of_nodup_map hstamps ha hb hversion

/-- The last match in a list in order is the latest one. -/
theorem find?_reverse_latest {α : Type} {r : α → α → Prop} {values : List α}
    (hordered : values.Pairwise r) {matches? : α → Bool} {latest : α}
    (h : values.reverse.find? matches? = some latest) :
    latest ∈ values ∧ matches? latest = true ∧
      ∀ value ∈ values, matches? value = true → value = latest ∨ r value latest := by
  obtain ⟨hmatch, after, before, hsplit, hafter⟩ := List.find?_eq_some_iff_append.mp h
  have hvalues : values = before.reverse ++ latest :: after.reverse := by
    rw [← List.reverse_reverse values, hsplit]
    simp
  refine ⟨by simp [hvalues], hmatch, fun value hvalue hvalueMatches => ?_⟩
  rw [hvalues] at hvalue hordered
  rcases List.mem_append.mp hvalue with hbefore | hrest
  · exact Or.inr ((List.pairwise_append.mp hordered).2.2 value hbefore latest (by simp))
  · rcases List.mem_cons.mp hrest with rfl | hlater
    · exact Or.inl rfl
    · have hno := hafter value (List.mem_reverse.mp hlater)
      simp [hvalueMatches] at hno

/-- The newest entry of a row is at or above every entry of the row. -/
theorem Inv.newestFor {world : World} (h : Inv world) {write : QueuedWrite}
    (hwrite : write ∈ world.storage.queue) :
    ∃ newest, world.storage.newestFor write.table write.id = some newest ∧
      newest ∈ world.storage.queue ∧
      ∀ other ∈ world.storage.queue, other.sameRow write.table write.id = true →
        other.baseVersion ≤ newest.baseVersion := by
  cases hnewest : world.storage.newestFor write.table write.id with
  | none =>
      have hnone := List.find?_eq_none.mp hnewest write (List.mem_reverse.mpr hwrite)
      simp [QueuedWrite.sameRow] at hnone
  | some newest =>
      obtain ⟨hmem, -, hlatest⟩ := find?_reverse_latest h.sorted hnewest
      refine ⟨newest, rfl, hmem, fun other hother hsame => ?_⟩
      rcases hlatest other hother hsame with rfl | hlt
      · exact le_rfl
      · exact hlt.le

/-- The index of a queued write is its own. -/
theorem Inv.indexOf {world : World} (h : Inv world) {write : QueuedWrite}
    (hwrite : write ∈ world.storage.queue) :
    ∃ index, world.storage.indexOf write = some index ∧
      world.storage.queue[index]? = some write := by
  cases hindex : world.storage.indexOf write with
  | none =>
      have hnone := List.findIdx?_eq_none_iff.mp hindex write hwrite
      simp at hnone
  | some index =>
      obtain ⟨hlt, hfound, -⟩ := List.findIdx?_eq_some_iff_getElem.mp hindex
      simp only [Bool.and_eq_true, beq_iff_eq] at hfound
      have heq := h.eq_of_key (List.getElem_mem hlt) hwrite hfound.2
      exact ⟨index, rfl, by rw [List.getElem?_eq_getElem hlt, heq]⟩

/-- Without its entry at an index, a queue without repetitions has the rest. -/
theorem mem_eraseIdx_iff {values : List α} (hdistinct : values.Nodup) {index : Nat} {value : α}
    (hindex : values[index]? = some value) (other : α) :
    other ∈ values.eraseIdx index ↔ other ∈ values ∧ other ≠ value := by
  obtain ⟨hlt, hvalue⟩ := List.getElem?_eq_some_iff.mp hindex
  rw [List.mem_eraseIdx_iff_getElem]
  constructor
  · rintro ⟨i, hi, hne, rfl⟩
    refine ⟨List.getElem_mem hi, fun heq => hne ?_⟩
    rw [← hvalue] at heq
    exact (hdistinct.getElem_inj_iff).mp heq
  · rintro ⟨hmem, hne⟩
    obtain ⟨i, hi, rfl⟩ := List.mem_iff_getElem.mp hmem
    refine ⟨i, hi, ?_, rfl⟩
    rintro rfl
    exact hne hvalue

/-- What keeps the invariant when the queue only loses entries. -/
theorem Inv.shrink {before after : World} (h : Inv before)
    (hqueue : after.storage.queue.Sublist before.storage.queue)
    (hclock : before.clock.stamp ≤ after.clock.stamp)
    (hactor : after.clock.actor = before.clock.actor) (hseq : after.keySeq = before.keySeq)
    (hdirty : ∀ write ∈ after.storage.queue, ∃ stored,
      after.storage.getRow write.table write.id = some stored ∧ stored.dirty = true)
    (hexchanges : after.exchanges = before.exchanges) : Inv after := by
  refine ⟨hdirty, ?_, h.sorted.sublist hqueue, ?_, h.keys.sublist (hqueue.map _), ?_, ?_, ?_⟩
  · exact fun a ha b hb => h.apart a (hqueue.subset ha) b (hqueue.subset hb)
  · exact fun write hwrite => (h.stamped write (hqueue.subset hwrite)).trans hclock
  · intro write hwrite
    rw [hactor, hseq]
    exact h.minted write (hqueue.subset hwrite)
  · intro write hacked
    rw [hexchanges] at hacked
    obtain ⟨hstamp, hlater⟩ := h.acked write hacked
    exact ⟨hstamp.trans hclock, fun later hin => hlater later (hqueue.subset hin)⟩
  · rw [SentAfterAcks, hexchanges]
    exact h.order

theorem Inv.acknowledge {world : World} (h : Inv world) {write : QueuedWrite}
    (hstamp : write.baseVersion ≤ world.clock.stamp)
    (holdest : ∀ other ∈ world.storage.queue, other.sameRow write.table write.id = true →
      write.baseVersion ≤ other.baseVersion) :
    Inv { world with exchanges := world.exchanges ++ [.acked write] } := by
  refine ⟨h.dirty, h.apart, h.sorted, h.stamped, h.keys, h.minted, ?_, ?_⟩
  · intro other hacked
    rcases List.mem_append.mp hacked with hbefore | hnow
    · exact h.acked other hbefore
    · obtain rfl : other = write := by simpa using hnow
      exact ⟨hstamp, holdest⟩
  · refine List.pairwise_append.mpr ⟨h.order, by simp, ?_⟩
    intro earlier _ later hlater
    obtain rfl := List.mem_singleton.mp hlater
    cases earlier <;> trivial

/-- A queued write may be sent: every acknowledged write of its row is older. -/
theorem Inv.send {world : World} (h : Inv world) {write : QueuedWrite}
    (hwrite : write ∈ world.storage.queue) :
    Inv { world with exchanges := world.exchanges ++ [.sent write.change] } := by
  refine ⟨h.dirty, h.apart, h.sorted, h.stamped, h.keys, h.minted, ?_, ?_⟩
  · intro other hacked
    rcases List.mem_append.mp hacked with hbefore | hnow
    · exact h.acked other hbefore
    · simp at hnow
  · refine List.pairwise_append.mpr ⟨h.order, by simp, ?_⟩
    intro earlier hearlier later hlater
    obtain rfl := List.mem_singleton.mp hlater
    cases earlier with
    | sent change => trivial
    | acked other =>
        intro htable hid
        exact not_lt.mpr ((h.acked other hearlier).2 write hwrite
          ((sameRow_iff _ _ _).mpr ⟨htable, hid⟩))

/-- The settlement of a write that is the oldest of its row: the rest of the
queue stays, and if the write stays too it is the only one of its row. -/
theorem Inv.settle {world : World} (h : Inv world) {write : QueuedWrite}
    (hwrite : write ∈ world.storage.queue)
    (holdest : ∀ other ∈ world.storage.queue, other.sameRow write.table write.id = true →
      write.baseVersion ≤ other.baseVersion) (committed : Hlc) (input : Input) :
    let after := (perform (.settleAck write committed) input world).2
    Inv after ∧ after.storage.queue.Sublist world.storage.queue ∧
      (∀ other ∈ world.storage.queue, other ≠ write → other ∈ after.storage.queue) ∧
      (write ∈ after.storage.queue → ∀ other ∈ world.storage.queue,
        other.sameRow write.table write.id = true → other = write) := by
  intro after
  obtain ⟨index, hindex, hslot⟩ := h.indexOf hwrite
  obtain ⟨newest, hnewest, hnewestMem, hlatest⟩ := h.newestFor hwrite
  obtain ⟨stored, hstored, hdirty⟩ := h.dirty write hwrite
  have hacked := h.acknowledge (h.stamped write hwrite) holdest
  have hdistinct : world.storage.queue.Nodup := h.keys.of_map
  -- When the newest entry of the row is the write, it is the only one.
  have honly : newest.key = write.key → ∀ other ∈ world.storage.queue,
      other.sameRow write.table write.id = true → other = write := by
    intro hkey other hother hsame
    obtain rfl : newest = write := h.eq_of_key hnewestMem hwrite hkey
    exact h.eq_of_version hother hwrite ((hlatest other hother hsame).antisymm
      (holdest other hother hsame))
  have hafter : after = { world with
      storage := (world.storage.settleAck write committed input.now).2
      exchanges := world.exchanges ++ [.acked write] } := rfl
  have hsublist : (world.storage.without write).queue.Sublist world.storage.queue :=
    List.eraseP_sublist
  have hwithout : (world.storage.without write).queue = world.storage.queue.eraseIdx index := by
    rw [MemoryStorage.without_eq, hindex]
  have hrest := mem_eraseIdx_iff hdistinct hslot
  rw [← hwithout] at hrest
  have hgone : write ∉ (world.storage.without write).queue := by simp [hrest]
  have hsettle := world.storage.settleAck_eq write committed input.now
  rw [hstored, hnewest] at hsettle
  by_cases hkey : newest.key = write.key
  · by_cases hclean : stored.version = write.baseVersion ∧ stored.version ≤ committed
    · have hsame : (world.storage.settleAck write committed input.now).2 =
          (world.storage.without write).putRow write.table write.id
            (stored.settled committed input.now) := by
        simpa [hkey, if_pos hclean] using hsettle
      rw [hafter, hsame]
      refine ⟨?_, hsublist, fun other hother hne => (hrest other).mpr ⟨hother, hne⟩,
        fun hin => absurd hin hgone⟩
      refine hacked.shrink hsublist le_rfl rfl rfl (fun other hother => ?_) rfl
      obtain ⟨hbefore, hne⟩ := (hrest other).mp hother
      have hother : rowKey other.table other.id ≠ rowKey write.table write.id := by
        intro hkeys
        obtain ⟨htable, hid⟩ := h.apart other hbefore write hwrite hkeys
        exact hne (honly hkey other hbefore ((sameRow_iff _ _ _).mpr ⟨htable, hid⟩))
      obtain ⟨row, hrow, hrowDirty⟩ := h.dirty other hbefore
      refine ⟨row, ?_, hrowDirty⟩
      rw [MemoryStorage.getRow_putRow, if_neg hother]
      exact hrow
    · have hsame : (world.storage.settleAck write committed input.now).2 = world.storage := by
        simpa [hkey, if_neg hclean] using hsettle
      rw [hafter, hsame]
      exact ⟨hacked, List.Sublist.refl _, fun other hother _ => hother, fun _ => honly hkey⟩
  · have hsame : (world.storage.settleAck write committed input.now).2 =
        world.storage.without write := by
      simpa [hkey] using hsettle
    rw [hafter, hsame]
    refine ⟨?_, hsublist, fun other hother hne => (hrest other).mpr ⟨hother, hne⟩,
      fun hin => absurd hin hgone⟩
    exact hacked.shrink hsublist le_rfl rfl rfl
      (fun other hother => h.dirty other (hsublist.subset hother)) rfl

theorem retireRow_sublist (table id : String) (writes : List QueuedWrite)
    (storage : MemoryStorage) :
    (MemoryStorage.retireRow table id writes storage).queue.Sublist storage.queue := by
  induction writes generalizing storage with
  | nil => exact List.Sublist.refl _
  | cons first rest ih =>
      rw [MemoryStorage.retireRow, List.foldl_cons, ← MemoryStorage.retireRow]
      apply (ih _).trans
      split
      · exact List.filter_sublist
      · exact List.Sublist.refl _

/-- The queue only lost entries, and the row of each entry left is dirty. -/
def Shrinks (before after : MemoryStorage) : Prop :=
  after.queue.Sublist before.queue ∧
    ∀ write ∈ after.queue, ∃ stored,
      after.getRow write.table write.id = some stored ∧ stored.dirty = true

/-- An adopted row leaves the rows of the writes that stay queued alone. -/
theorem Inv.adopt {world : World} (h : Inv world) (incoming : ChangeEvent) (now : Nat)
    {storage : MemoryStorage} (hqueue : storage.queue.Sublist world.storage.queue)
    (hrows : storage.rows = (world.storage.adopt incoming now).rows)
    (hother : ∀ write ∈ storage.queue,
      rowKey write.table write.id ≠ rowKey incoming.table incoming.id) :
    Shrinks world.storage storage := by
  refine ⟨hqueue, fun write hwrite => ?_⟩
  obtain ⟨stored, hstored, hdirty⟩ := h.dirty write (hqueue.subset hwrite)
  refine ⟨stored, ?_, hdirty⟩
  rw [MemoryStorage.getRow, hrows]
  exact (if_neg (hother write hwrite)).trans hstored

/-- A delivery alone leaves the row of every queued write dirty. -/
theorem Inv.receive {world : World} (h : Inv world) {incoming : ChangeEvent}
    (hapart : Apart incoming.table incoming.id world) (now : Nat) :
    Shrinks world.storage (world.storage.receive incoming now) := by
  have hsame : Shrinks world.storage world.storage := ⟨List.Sublist.refl _, h.dirty⟩
  have hclean : (∀ stored, world.storage.getRow incoming.table incoming.id = some stored →
        stored.dirty = false) →
      ∀ write ∈ world.storage.queue,
        rowKey write.table write.id ≠ rowKey incoming.table incoming.id := by
    intro hrow write hwrite hkeys
    obtain ⟨stored, hstored, hdirty⟩ := h.dirty write hwrite
    rw [MemoryStorage.getRow, hkeys] at hstored
    simp [hrow stored hstored] at hdirty
  unfold MemoryStorage.receive
  cases hrow : world.storage.getRow incoming.table incoming.id with
  | none =>
      dsimp only
      split
      · exact h.adopt incoming now (List.Sublist.refl _) rfl (hclean (by simp [hrow]))
      · exact hsame
  | some stored =>
      dsimp only
      split
      · exact hsame
      · split
        · cases hdirty : stored.dirty with
          | true => exact hsame
          | false =>
              exact h.adopt incoming now (List.Sublist.refl _) rfl
                (hclean (by simp [hrow, hdirty]))
        · cases hdirty : stored.dirty with
          | false =>
              exact h.adopt incoming now (List.Sublist.refl _) rfl
                (hclean (by simp [hrow, hdirty]))
          | true =>
              refine h.adopt incoming now (retireRow_sublist _ _ _ _) (by simp) ?_
              intro write hwrite hkeys
              obtain ⟨hqueued, hretired⟩ := (MemoryStorage.mem_retireRow _ _ _ _ _).mp hwrite
              exact hretired write hqueued ((sameRow_iff _ _ _).mpr (hapart write hqueued hkeys))
                rfl

theorem Inv.applyChange {world : World} (h : Inv world) (config : ClientConfig)
    {incoming : ChangeEvent} (hapart : Apart incoming.table incoming.id world)
    (inputs : List Input) : Inv ((applyChange config incoming).run inputs world).2 := by
  by_cases hadmits : world.refusal .canReceiveChanges = none
  · obtain ⟨now, observed, adopted, hrun⟩ :=
      run_applyChange config incoming inputs world hadmits
    obtain ⟨hqueue, hdirty⟩ := h.receive hapart now
    rw [hrun]
    refine h.shrink hqueue ?_ ?_ rfl hdirty rfl
    · rw [observe_eq]
      exact (lt_observe _ _ _).le
    · rw [observe_eq, observe_actor]
  · rw [run_applyChange_refused config incoming inputs world hadmits]
    exact h

theorem toDigits_injective {a b : Nat} (h : Nat.toDigits 10 a = Nat.toDigits 10 b) : a = b := by
  have hvalue := congrArg (fun digits => Nat.ofDigitChars 10 digits 0) h
  simpa using hvalue

/-- The keys of one client differ with their sequence numbers: a decimal numeral
has no dash. -/
theorem nextKey_seq {actor : String} {now seq now' seq' : Nat}
    (h : nextKey actor now seq = nextKey actor now' seq') : seq = seq' := by
  have hchars := congrArg String.toList h
  simp only [nextKey, Nat.toString_eq_repr, String.toList_append, Nat.toList_repr,
    List.append_assoc, List.append_cancel_left_eq] at hchars
  have hdigits : ∀ value, ∀ digit ∈ Nat.toDigits 10 value, digit.isDigit = true :=
    fun value digit hdigit => Nat.isDigit_of_mem_toDigits (by decide) (by decide) hdigit
  have hrest := congrArg (List.dropWhile Char.isDigit) hchars
  rw [List.dropWhile_append_of_pos (hdigits now), List.dropWhile_append_of_pos (hdigits now')]
    at hrest
  exact toDigits_injective (by simpa using hrest)

/-- The world once a write is stamped, applied locally and queued. -/
def writeQueued (world : World) (queued : QueuedWrite) (tickNow : Nat)
    (syncedAtMs : Option Nat) : World :=
  { world with
    storage :=
      (world.storage.putRow queued.table queued.id
        { row := queued.payload, version := queued.baseVersion, dirty := true,
          syncedAtMs := syncedAtMs }).enqueue queued
    clock := tick world.clock tickNow
    keySeq := world.keySeq + 1
    queued := world.queued ++ [queued]
    adopted := world.adopted ++ [] }

theorem queue_writeQueued (world : World) (queued : QueuedWrite) (tickNow : Nat)
    (syncedAtMs : Option Nat) :
    (AckedRows.writeQueued world queued tickNow syncedAtMs).storage.queue =
      world.storage.queue ++ [queued] := rfl

theorem mem_writeQueued {world : World} {queued write : QueuedWrite} {tickNow : Nat}
    {syncedAtMs : Option Nat}
    (h : write ∈ (AckedRows.writeQueued world queued tickNow syncedAtMs).storage.queue) :
    write ∈ world.storage.queue ∨ write = queued := by
  rw [queue_writeQueued] at h
  exact (List.mem_append.mp h).imp_right List.mem_singleton.mp

/-- A new write goes to the end of the queue, above everything before it. -/
theorem Inv.writeQueued {world : World} (h : Inv world) (queued : QueuedWrite)
    (tickNow keyNow : Nat) (syncedAtMs : Option Nat)
    (hapart : Apart queued.table queued.id world)
    (hversion : queued.baseVersion = (tick world.clock tickNow).stamp)
    (hkey : queued.key = nextKey (tick world.clock tickNow).actor keyNow world.keySeq) :
    Inv (AckedRows.writeQueued world queued tickNow syncedAtMs) := by
  have habove : world.clock.stamp < queued.baseVersion := by
    rw [hversion, tick_eq]
    exact lt_tick _ _
  have hactor : (tick world.clock tickNow).actor = world.clock.actor := by
    rw [tick_eq, tick_actor]
  refine ⟨?_, ?_, ?_, ?_, ?_, ?_, ?_, h.order⟩
  · intro write hwrite
    simp only [AckedRows.writeQueued, MemoryStorage.getRow, MemoryStorage.enqueue_rows,
      MemoryStorage.putRow]
    by_cases hkeys : rowKey write.table write.id = rowKey queued.table queued.id
    · exact ⟨_, if_pos hkeys, rfl⟩
    · rcases mem_writeQueued hwrite with hbefore | rfl
      · obtain ⟨stored, hstored, hdirty⟩ := h.dirty write hbefore
        exact ⟨stored, (if_neg hkeys).trans hstored, hdirty⟩
      · exact absurd rfl hkeys
  · intro a ha b hb hkeys
    rcases mem_writeQueued ha with haold | rfl
    · rcases mem_writeQueued hb with hbold | rfl
      · exact h.apart a haold b hbold hkeys
      · exact hapart a haold hkeys
    · rcases mem_writeQueued hb with hbold | rfl
      · exact (hapart b hbold hkeys.symm).imp Eq.symm Eq.symm
      · exact ⟨rfl, rfl⟩
  · rw [queue_writeQueued]
    refine List.pairwise_append.mpr ⟨h.sorted, List.pairwise_singleton _ _, ?_⟩
    intro earlier hearlier later hlater
    obtain rfl := List.mem_singleton.mp hlater
    exact (h.stamped earlier hearlier).trans_lt habove
  · intro write hwrite
    have hclock : (AckedRows.writeQueued world queued tickNow syncedAtMs).clock.stamp =
        queued.baseVersion := hversion.symm
    rw [hclock]
    rcases mem_writeQueued hwrite with hbefore | rfl
    · exact (h.stamped write hbefore).trans habove.le
    · exact le_rfl
  · rw [queue_writeQueued, List.map_append, List.nodup_append]
    refine ⟨h.keys, by simp, ?_⟩
    intro key hold key' hnew
    obtain ⟨write, hwrite, rfl⟩ := List.mem_map.mp hold
    obtain ⟨now, seq, hseq, hminted⟩ := h.minted write hwrite
    obtain rfl : key' = queued.key := by simpa using hnew
    rw [hminted, hkey, hactor]
    exact fun heq => hseq.ne (nextKey_seq heq)
  · intro write hwrite
    have hclock : (AckedRows.writeQueued world queued tickNow syncedAtMs).clock.actor =
        world.clock.actor := hactor
    rw [hclock]
    rcases mem_writeQueued hwrite with hbefore | rfl
    · obtain ⟨now, seq, hseq, hminted⟩ := h.minted write hbefore
      exact ⟨now, seq, Nat.lt_succ_of_lt hseq, hminted⟩
    · exact ⟨keyNow, world.keySeq, Nat.lt_succ_self _, hactor ▸ hkey⟩
  · intro write hacked
    obtain ⟨hstamp, hlater⟩ := h.acked write hacked
    have hbelow := hstamp.trans_lt habove
    refine ⟨hbelow.le.trans_eq hversion, fun later hmem hsame => ?_⟩
    rcases mem_writeQueued hmem with hbefore | rfl
    · exact hlater later hbefore hsame
    · exact hbelow.le

/-- What a call keeps when nothing runs beside it. -/
abbrev Spec (C : Action → World → Prop) (Q : World → Prop) (program : Prog device α)
    (world : World) : Prop :=
  program.Sat C Eq (fun _ _ => True) (fun _ => Q) world

theorem ret_spec {C : Action → World → Prop} {Q : World → Prop} {world : World} (h : Q world)
    (value : α) : Spec C Q (.ret value) world := by
  rintro _ rfl
  exact h

/-- A queued write is sent; only what was exchanged changes. -/
theorem Inv.doSend {C : Action → World → Prop} {Q : World → Prop} {world : World}
    (h : Inv world) {write : QueuedWrite} (hwrite : write ∈ world.storage.queue)
    (config : ClientConfig) (next : Outcome Hlc → Prog device α)
    (hfailed : ∀ error later, Inv later → later.storage = world.storage →
      Spec C Q (next (.error error)) later)
    (hcommitted : ∀ committed later, Inv later → later.storage = world.storage →
      Spec C Q (next (.ok committed)) later) :
    Spec C Q (doSend config write.change >>= next) world := by
  unfold Dart.doSend
  split
  · rintro _ rfl _ _
    refine ⟨trivial, ?_⟩
    rintro _ rfl _ input
    refine ⟨trivial, ?_⟩
    have hsent := h.send hwrite
    cases hresponse : input.response with
    | failed message =>
        simp only [perform, hresponse]
        exact hfailed _ _ hsent rfl
    | committed version =>
        simp only [perform, hresponse]
        exact hcommitted _ _ hsent rfl
  · exact hfailed _ _ h rfl

theorem Inv.sendQueued {world : World} (h : Inv world) {queued : QueuedWrite}
    (hqueued : queued ∈ world.storage.queue) (config : ClientConfig) (mode : WriteMode)
    (policy : ErrorPolicy) :
    Spec SettlesOldest Inv (sendQueued config queued mode policy) world := by
  refine h.doSend hqueued config _ (fun error later hlater _ => ret_spec hlater _) ?_
  intro committed later hlater hstorage
  rintro _ rfl holdest input
  refine ⟨trivial, ret_spec ?_ _⟩
  rw [← hstorage] at hqueued
  exact (hlater.settle hqueued
    (fun other hother hsame => not_lt.mp (holdest queued committed rfl other hother hsame))
    committed input).1

theorem Inv.write {world : World} (h : Inv world) (config : ClientConfig) {table id : String}
    (hapart : Apart table id world) (row : Option Json) (options : WriteOptions)
    (hfirst : options.mode.getD config.writeMode ≠ .serverFirst)
    (honly : options.mode.getD config.writeMode ≠ .serverOnly) :
    Spec SettlesOldest Inv (write config table id row options) world := by
  simp only [Spec, Dart.write, requireCapability, writeStamped, hfirst, honly, or_self, if_false,
    act, Prog.call_bind, Prog.ret_bind, Prog.pure_eq]
  rintro _ rfl _ _
  refine ⟨trivial, ?_⟩
  cases hrefusal : world.refusal .canWrite with
  | some phase =>
      simp only [perform, hrefusal]
      exact ret_spec h _
  | none =>
      simp only [perform, hrefusal]
      rintro _ rfl _ ticking
      refine ⟨trivial, ?_⟩
      rintro _ rfl _ keying
      refine ⟨trivial, ?_⟩
      rintro _ rfl _ _
      refine ⟨trivial, ?_⟩
      rintro _ rfl _ _
      refine ⟨trivial, ?_⟩
      rintro _ rfl _ _
      refine ⟨trivial, ?_⟩
      have hqueued := h.writeQueued ⟨table, id, options.op, row, _, _⟩ ticking.now keying.now
        ((world.storage.getRow table id).bind (·.syncedAtMs)) hapart rfl rfl
      dsimp only
      split
      · exact ret_spec hqueued _
      · exact hqueued.sendQueued (List.mem_append_right _ (List.mem_singleton_self _)) config _ _

/-- The entries a flush has not reached yet: all still queued, in order, and
nothing else of their rows is. -/
structure Ahead (entries : List QueuedWrite) (world : World) : Prop where
  inv : Inv world
  queued : ∀ entry ∈ entries, entry ∈ world.storage.queue
  ordered : entries.Pairwise fun a b => a.baseVersion < b.baseVersion
  behind : ∀ other ∈ world.storage.queue, other ∉ entries →
    ∀ entry ∈ entries, other.sameRow entry.table entry.id = false

theorem Ahead.of_storage {entries : List QueuedWrite} {world later : World}
    (h : Ahead entries world) (hinv : Inv later) (hstorage : later.storage = world.storage) :
    Ahead entries later := by
  refine ⟨hinv, ?_, h.ordered, ?_⟩
  · rw [hstorage]
    exact h.queued
  · rw [hstorage]
    exact h.behind

/-- The entry a flush has reached is the oldest of its row. -/
theorem Ahead.oldest {write : QueuedWrite} {rest : List QueuedWrite} {world : World}
    (h : Ahead (write :: rest) world) :
    ∀ other ∈ world.storage.queue, other.sameRow write.table write.id = true →
      write.baseVersion ≤ other.baseVersion := by
  intro other hother hsame
  by_cases hahead : other ∈ write :: rest
  · rcases List.mem_cons.mp hahead with rfl | hrest
    · exact le_rfl
    · exact ((List.pairwise_cons.mp h.ordered).1 other hrest).le
  · simp [h.behind other hother hahead write List.mem_cons_self] at hsame

theorem Ahead.settle {write : QueuedWrite} {rest : List QueuedWrite} {world : World}
    (h : Ahead (write :: rest) world) (committed : Hlc) (input : Input) :
    Ahead rest (perform (.settleAck write committed) input world).2 := by
  have hwrite := h.queued write List.mem_cons_self
  obtain ⟨hlater, hrest⟩ := List.pairwise_cons.mp h.ordered
  obtain ⟨hinv, hsublist, hkept, honly⟩ := h.inv.settle hwrite h.oldest committed input
  have hne : ∀ entry ∈ rest, entry ≠ write := by
    rintro entry hentry rfl
    exact lt_irrefl _ (hlater entry hentry)
  refine ⟨hinv, ?_, hrest, ?_⟩
  · intro entry hentry
    exact hkept entry (h.queued entry (List.mem_cons_of_mem _ hentry)) (hne entry hentry)
  · intro other hother hnotin entry hentry
    have hentryQueued := h.queued entry (List.mem_cons_of_mem _ hentry)
    by_cases hsettled : other = write
    · subst hsettled
      by_contra hsame
      obtain ⟨htable, hid⟩ := (sameRow_iff _ _ _).mp (Bool.not_eq_false _ ▸ hsame)
      exact hne entry hentry (honly hother entry hentryQueued
        ((sameRow_iff _ _ _).mpr ⟨htable.symm, hid.symm⟩))
    · refine h.behind other (hsublist.subset hother) ?_ entry (List.mem_cons_of_mem _ hentry)
      simp [hsettled, hnotin]

/-- A flush settles the oldest write of a row first, whatever is answered. -/
theorem Ahead.flushEach {entries : List QueuedWrite} {world : World} (h : Ahead entries world)
    (config : ClientConfig) (sent : Nat) :
    Spec (fun _ _ => True) Inv (flushEach config sent entries) world := by
  induction entries generalizing sent world with
  | nil => exact ret_spec h.inv _
  | cons write rest ih =>
      refine h.inv.doSend (h.queued write List.mem_cons_self) config _
        (fun error later hlater _ => ret_spec hlater _) ?_
      intro committed later hlater hstorage
      rintro _ rfl _ input
      exact ⟨trivial, ih ((h.of_storage hlater hstorage).settle committed input) _⟩

theorem Inv.flushQueue {world : World} (h : Inv world) (config : ClientConfig) :
    Spec (fun _ _ => True) Inv (flushQueue config) world := by
  simp only [Spec, Dart.flushQueue, requireCapability, act, Prog.call_bind, Prog.ret_bind,
    Prog.pure_eq]
  rintro _ rfl _ _
  refine ⟨trivial, ?_⟩
  cases hrefusal : world.refusal .canWrite with
  | some phase =>
      simp only [perform, hrefusal]
      exact ret_spec h _
  | none =>
      simp only [perform, hrefusal]
      rintro _ rfl _ _
      refine ⟨trivial, ?_⟩
      have hall : Ahead world.storage.queue world :=
        ⟨h, fun _ hentry => hentry, h.sorted, fun _ hother hnot => absurd hother hnot⟩
      exact hall.flushEach config 0

/-- One call of a run keeps the invariant. -/
theorem Inv.callStep {config : ClientConfig} {world : World} (h : Inv world)
    {made : Call × List Input} (hmode : made.1.Optimistic config)
    (hacks : AcksInOrder config world made) : Inv (callStep config world made) := by
  obtain ⟨call, inputs⟩ := made
  cases call with
  | applyChange incoming =>
      simp only [Dart.callStep, Call.program, Prog.pure_eq, Prog.run_map]
      exact h.applyChange config hacks inputs
  | write table id row options =>
      simp only [Dart.callStep, Call.program, Prog.pure_eq, Prog.run_map]
      exact (h.write config hacks.1 row options hmode.1 hmode.2).alone hacks.2
  | flushQueue =>
      simp only [Dart.callStep, Call.program, Prog.pure_eq, Prog.run_map]
      exact (h.flushQueue config).alone (Prog.meets_of_forall (fun _ _ => trivial) _ _ _)
  | newClient => exact hmode.elim

/-- What one call keeps, a run of them keeps. -/
theorem Inv.run {config : ClientConfig} {calls : List (Call × List Input)} {world : World}
    (h : Inv world) (hmodes : ∀ made ∈ calls, made.1.Optimistic config)
    (hacks : Run.Along (Dart.callStep config) (AcksInOrder config) world calls) :
    Inv (Run.final (Dart.callStep config) world calls) := by
  induction calls generalizing world with
  | nil => exact h
  | cons made calls ih =>
      have hrest : ∀ other ∈ calls, other.1.Optimistic config :=
        fun other hother => hmodes other (List.mem_cons_of_mem _ hother)
      exact ih (h.callStep (hmodes made List.mem_cons_self) hacks.1) hrest hacks.2

theorem Inv.rowsSettled {world : World} (h : Inv world) : RowsSettled world := by
  rintro table id hclean write hwrite ⟨rfl, rfl⟩
  obtain ⟨stored, hstored, hdirty⟩ := h.dirty write hwrite
  simp [hclean stored hstored] at hdirty

theorem start_inv (actor : String) (lifecycle : Option AppLifecycleSnapshot) :
    Inv { clock := Clock.fresh actor, lifecycle := lifecycle } := by
  refine ⟨?_, ?_, List.Pairwise.nil, ?_, List.nodup_nil, ?_, ?_, List.Pairwise.nil⟩
  all_goals simp

end AckedRows

open AckedRows

/-- In every state between the calls of a run in which a write is acknowledged
only once no older write of its row is queued, and no two rows share a row key, a
row that is not dirty has no queued write, and nothing was sent that is older
than an acknowledged write of its row. -/
theorem acknowledged_rows_leave_nothing_older (config : ClientConfig) (actor : String)
    (lifecycle : Option AppLifecycleSnapshot) (calls : List (Call × List Input))
    (hmodes : ∀ made ∈ calls, made.1.Optimistic config) :
    let start : World := { clock := Clock.fresh actor, lifecycle := lifecycle }
    Run.Along (callStep config) (AcksInOrder config) start calls →
      RowsSettled (Run.final (callStep config) start calls) ∧
        SentAfterAcks (Run.final (callStep config) start calls) := by
  intro start hacks
  have hinv := (start_inv actor lifecycle).run hmodes hacks
  exact ⟨hinv.rowsSettled, hinv.order⟩

/-- What the outside answers one call: a device reading, and a response. -/
def answered (now : Nat) (response : Response) : List Input :=
  List.replicate 9 { now := now, response := response }

def writeRow (text : String) : Call := .write "todos" "a" (some (.str text)) {}

def online : ClientConfig := { hasSend := true }

/-- A write whose send fails, and what the outside answers it. -/
def failedWrite : Call × List Input := (writeRow "draft", answered 1 (.failed "offline"))

/-- A later write to the row, acknowledged. -/
def ackedWrite : Call × List Input :=
  (writeRow "final", answered 2 (.committed { wallMs := 3, counter := 0, actor := "server" }))

def ackedFlush : Call × List Input :=
  (.flushQueue, answered 2 (.committed { wallMs := 2, counter := 0, actor := "server" }))

theorem flush_before_write_settles :
    let final := Run.final (callStep online) { clock := Clock.fresh "device", lifecycle := none }
      [failedWrite, ackedFlush, ackedWrite]
    final.storage.queue = [] ∧ RowsSettled final ∧ SentAfterAcks final :=
  ⟨rfl, acknowledged_rows_leave_nothing_older online "device" none
    [failedWrite, ackedFlush, ackedWrite]
    (by simp [failedWrite, ackedFlush, ackedWrite, writeRow, online, Call.Optimistic])
    (by decide)⟩

/-- The later write is acknowledged first: its row is clean while the failed write
is still queued, and the next flush sends that one. -/
theorem clean_row_with_an_older_write :
    let start : World := { clock := Clock.fresh "device" }
    ¬ RowsSettled (Run.final (callStep online) start [failedWrite, ackedWrite]) ∧
      ¬ SentAfterAcks
        (Run.final (callStep online) start [failedWrite, ackedWrite, ackedFlush]) := by
  intro start
  refine ⟨fun hsettled => ?_, by decide⟩
  have hclean : ((Run.final (callStep online) start [failedWrite, ackedWrite]).storage.getRow
      "todos" "a").map (·.dirty) = some false := by decide
  have hqueue : (Run.final (callStep online) start [failedWrite, ackedWrite]).storage.queue.map
      (fun write => (write.table, write.id)) = [("todos", "a")] := by decide
  obtain ⟨write, hwrite, hrow⟩ := List.mem_map.mp (hqueue ▸ List.mem_singleton_self _)
  refine hsettled "todos" "a" (fun stored hstored => ?_) write hwrite (by simpa using hrow)
  rw [hstored] at hclean
  exact Option.some.inj hclean

end ZedSync.Dart
