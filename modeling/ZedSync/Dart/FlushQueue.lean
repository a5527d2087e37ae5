import ZedSync.Dart.AckedRows
import ZedSync.Dart.Settlement
import ZedSync.Dart.Slots
import ZedSync.Lib.Drain

/-!
How flushes drain the queue of a Dart client that worked offline: optimistic and
local writes on an empty `MemoryStorage`, none of them acknowledged, and then one
flush after another. A flush sends the queue from its head, and every answer takes
its entry out, save one below the base version of the newest write of a row.
-/

namespace ZedSync.Dart

open Async

/-- An optimistic or local write, of a table with a name the wire admits. -/
def Call.WritesLocally (config : ClientConfig) : Call → Prop
  | .write table _ _ options =>
      Separable table ∧ options.mode.getD config.writeMode ≠ .serverFirst ∧
        options.mode.getD config.writeMode ≠ .serverOnly
  | _ => False

def Exchange.isAck : Exchange → Bool
  | .acked _ => true
  | .sent _ => false

/-- No write was acknowledged yet. -/
def Unacked (world : World) : Prop := ∀ exchange ∈ world.exchanges, exchange.isAck = false

instance (world : World) : Decidable (Unacked world) :=
  inferInstanceAs (Decidable (∀ exchange ∈ world.exchanges, exchange.isAck = false))

/-- No write of its row is stamped after it. -/
def Newest (written : List QueuedWrite) (write : QueuedWrite) : Prop :=
  ∀ other ∈ written, other.sameRow write.table write.id = true →
    other.baseVersion ≤ write.baseVersion

instance (written : List QueuedWrite) (write : QueuedWrite) : Decidable (Newest written write) :=
  inferInstanceAs (Decidable (∀ other ∈ written, _ → _))

/-- The answer makes the entry stay: it is below the base of a row's newest write. -/
def Stays (written : List QueuedWrite) (write : QueuedWrite) (committed : Hlc) : Prop :=
  Newest written write ∧ committed < write.baseVersion

instance (written : List QueuedWrite) (write : QueuedWrite) (committed : Hlc) :
    Decidable (Stays written write committed) :=
  inferInstanceAs (Decidable (_ ∧ _))

/-- The row is clean, with the payload of the write at a version an attempt
committed. -/
def Cleaned (made : List (QueuedWrite × Option Hlc)) (write : QueuedWrite)
    (world : World) : Prop :=
  ∃ committed stored, (write, some committed) ∈ made ∧ ¬ committed < write.baseVersion ∧
    world.storage.getRow write.table write.id = some stored ∧ stored.row = write.payload ∧
    stored.version = committed ∧ stored.dirty = false

theorem Cleaned.mono {made made' : List (QueuedWrite × Option Hlc)} {write : QueuedWrite}
    {world later : World} (h : Cleaned made write world) (hsub : made ⊆ made')
    (hrow : later.storage.getRow write.table write.id =
      world.storage.getRow write.table write.id) : Cleaned made' write later := by
  obtain ⟨committed, stored, hmade, hle, hstored, hclean⟩ := h
  exact ⟨committed, stored, hsub hmade, hle, hrow.trans hstored, hclean⟩

/-- The version committed for the request of each entry a flush reaches, or none for one
that failed: after the check and the snapshot each entry is sent, answered and settled. -/
def answer (inputs : List Input) (i : Nat) : Option Hlc :=
  match ((inputs.drop (3 * i + 1)).headD {}).response with
  | .failed _ => none
  | .committed version => some version

/-- The requests of a flush, each with its answer. -/
def flushAttempts (config : ClientConfig) (world : World) (inputs : List Input) :
    List (QueuedWrite × Option Hlc) :=
  if config.hasSend = true ∧ world.refusal .canWrite = none then
    Drain.attempts world.storage.queue (answer (inputs.drop 2))
  else []

/-- The requests of all flushes, in order. -/
def allAttempts (config : ClientConfig) (start : World) (rounds : List (List Input)) :
    List (QueuedWrite × Option Hlc) :=
  Drain.log (flush config) (flushAttempts config) start rounds

/-- The write was sent and its answer takes it out of the queue. -/
def Succeeded (written : List QueuedWrite) (made : List (QueuedWrite × Option Hlc))
    (write : QueuedWrite) : Prop :=
  ∃ attempt ∈ made, attempt.1 = write ∧ Drain.Settles (Stays written) attempt

/-- The flushes drain the queue they start from. -/
structure DrainsExactly (config : ClientConfig) (start : World) (rounds : List (List Input)) :
    Prop where
  /-- The queue is every write as it was enqueued, in the order of the stamps. -/
  enqueued : start.storage.queue = start.queued
  stamped : start.queued.Pairwise fun a b => a.baseVersion < b.baseVersion
  /-- Entries are sent as they are. -/
  sends : Run.Along (flush config) (fun world inputs => (flush config world inputs).sent =
    world.sent ++ (flushAttempts config world inputs).map (·.1.change)) start rounds
  /-- Each flush sends the queue from its head and stops at its first failure; what
  succeeded is gone from the rest, which keeps its order. -/
  inRounds : Drain.Rounds (Stays start.queued) (flush config) (·.storage.queue)
    (flushAttempts config) start rounds
  /-- Only a failure stops a flush that may send. -/
  unstopped : Run.Along (flush config) (fun world inputs => config.hasSend = true →
    world.refusal .canWrite = none →
    (∀ attempt ∈ flushAttempts config world inputs, attempt.2.isSome = true) →
    (flushAttempts config world inputs).map Prod.fst = world.storage.queue) start rounds
  /-- No entry that was taken out is sent again. -/
  never_again : (allAttempts config start rounds).Pairwise fun earlier later =>
    Drain.Settles (Stays start.queued) earlier → later.1.key ≠ earlier.1.key
  /-- After the success of every write the queue is empty, and the rows are those of the
  newest writes, clean at their committed versions. -/
  drained : (∀ write ∈ start.queued,
      Succeeded start.queued (allAttempts config start rounds) write) →
    (flushes config rounds start).storage.queue = [] ∧
      (∀ write ∈ start.queued, Newest start.queued write →
        Cleaned (allAttempts config start rounds) write (flushes config rounds start)) ∧
      ∀ key stored, (flushes config rounds start).storage.rows key = some stored →
        ∃ write ∈ start.queued, Newest start.queued write ∧ rowKey write.table write.id = key

namespace FlushQueue

open AckedRows

/-- What a write alone does: it is refused, or it is stamped, applied and queued, and
perhaps sent; unless it is acknowledged at once. -/
theorem run_write (config : ClientConfig) (table id : String) (row : Option Json)
    (options : WriteOptions) (inputs : List Input) (world : World)
    (hfirst : options.mode.getD config.writeMode ≠ .serverFirst)
    (honly : options.mode.getD config.writeMode ≠ .serverOnly) :
    let after := ((write config table id row options).run inputs world).2
    after = world ∨
      ∃ queued tickNow keyNow syncedAtMs, queued.table = table ∧ queued.id = id ∧
        queued.baseVersion = (tick world.clock tickNow).stamp ∧
        queued.key = nextKey (tick world.clock tickNow).actor keyNow world.keySeq ∧
        (after = AckedRows.writeQueued world queued tickNow syncedAtMs ∨
          after = { AckedRows.writeQueued world queued tickNow syncedAtMs with
            exchanges := world.exchanges ++ [.sent queued.change] } ∨
          ¬ Unacked after) := by
  intro after
  cases hrefusal : world.refusal .canWrite with
  | some phase =>
      refine Or.inl ?_
      simp only [after, write, requireCapability, act, Prog.call_bind, Prog.ret_bind, Prog.run,
        perform, hrefusal, Prog.pure_eq]
  | none =>
      right
      let tickNow := (inputs.tail.headD {}).now
      let keyNow := (inputs.tail.tail.headD {}).now
      refine ⟨⟨table, id, options.op, row, (tick world.clock tickNow).stamp,
        nextKey (tick world.clock tickNow).actor keyNow world.keySeq⟩, tickNow, keyNow,
        (world.storage.getRow table id).bind (·.syncedAtMs), rfl, rfl, rfl, rfl, ?_⟩
      simp only [after, write, requireCapability, writeStamped, hfirst, honly, or_self, if_false,
        writeLocally, act, Prog.call_bind, Prog.ret_bind, Prog.pure_eq, Prog.run, perform, hrefusal]
      split
      · exact Or.inl rfl
      · unfold sendQueued doSend
        split
        · simp only [act, Prog.call_bind, Prog.ret_bind, Prog.run, perform]
          split
          · exact Or.inr (Or.inl rfl)
          · refine Or.inr (Or.inr fun hunacked => ?_)
            have hacked := hunacked (.acked _)
              (List.mem_append_right _ (List.mem_singleton_self _))
            cases hacked
        · exact Or.inl rfl

/-- Nothing acknowledged: the queue holds every write in order, and each row is what
its newest write put there. -/
structure Offline (world : World) : Prop extends AckedRows.Inv world where
  enqueued : world.storage.queue = world.queued
  tables : ∀ write ∈ world.storage.queue, Separable write.table
  holds : ∀ write ∈ world.storage.queue, Newest world.storage.queue write → RowHolds write world
  owned : ∀ key stored, world.storage.rows key = some stored → ∃ write ∈ world.storage.queue,
    Newest world.storage.queue write ∧ rowKey write.table write.id = key

/-- What was exchanged does not matter to the storage. -/
theorem Offline.send {world : World} (h : Offline world) {write : QueuedWrite}
    (hwrite : write ∈ world.storage.queue) :
    Offline { world with exchanges := world.exchanges ++ [.sent write.change] } :=
  { h.toInv.send hwrite with
    enqueued := h.enqueued
    tables := h.tables
    holds := h.holds
    owned := h.owned }

/-- The write that is queued last is the newest of its row, and leaves the newest of
every other row. -/
theorem newest_append_iff {queue : List QueuedWrite} {queued : QueuedWrite}
    (habove : ∀ write ∈ queue, write.baseVersion < queued.baseVersion) (write : QueuedWrite)
    (hwrite : write ∈ queue) : Newest (queue ++ [queued]) write ↔
      Newest queue write ∧ queued.sameRow write.table write.id = false := by
  simp only [Newest, List.mem_append, List.mem_singleton]
  constructor
  · intro hnewest
    refine ⟨fun other hother => hnewest other (Or.inl hother), ?_⟩
    by_contra hsame
    have hle := hnewest queued (Or.inr rfl) (Bool.not_eq_false _ ▸ hsame)
    exact absurd (habove write hwrite) (not_lt.mpr hle)
  · rintro ⟨hnewest, hapart⟩ other (hother | rfl) hsame
    · exact hnewest other hother hsame
    · rw [hapart] at hsame
      cases hsame

theorem newest_last {queue : List QueuedWrite} {queued : QueuedWrite}
    (habove : ∀ write ∈ queue, write.baseVersion < queued.baseVersion) :
    Newest (queue ++ [queued]) queued := by
  intro other hother _
  rcases List.mem_append.mp hother with hbefore | hlast
  · exact (habove other hbefore).le
  · exact (List.mem_singleton.mp hlast ▸ le_rfl)

theorem Offline.writeQueued {world : World} (h : Offline world) {queued : QueuedWrite}
    (htable : Separable queued.table) (tickNow keyNow : Nat) (syncedAtMs : Option Nat)
    (hversion : queued.baseVersion = (tick world.clock tickNow).stamp)
    (hkey : queued.key = nextKey (tick world.clock tickNow).actor keyNow world.keySeq) :
    Offline (AckedRows.writeQueued world queued tickNow syncedAtMs) := by
  have hapart : Apart queued.table queued.id world :=
    fun write hwrite hkeys => rowKey_inj (h.tables write hwrite) htable hkeys
  have habove : ∀ write ∈ world.storage.queue, write.baseVersion < queued.baseVersion := by
    intro write hwrite
    refine (h.stamped write hwrite).trans_lt ?_
    rw [hversion, tick_eq]
    exact lt_tick _ _
  have hrows : ∀ key, (AckedRows.writeQueued world queued tickNow syncedAtMs).storage.rows key =
      if key = rowKey queued.table queued.id then
        some { row := queued.payload, version := queued.baseVersion, dirty := true,
               syncedAtMs := syncedAtMs }
      else world.storage.rows key := fun _ => rfl
  refine { h.toInv.writeQueued queued tickNow keyNow syncedAtMs hapart hversion hkey with
    enqueued := ?_, tables := ?_, holds := ?_, owned := ?_ }
  · rw [queue_writeQueued, h.enqueued]
    rfl
  · intro write hwrite
    rcases mem_writeQueued hwrite with hbefore | rfl
    · exact h.tables write hbefore
    · exact htable
  · intro write hwrite hnewest
    rw [queue_writeQueued] at hnewest
    rcases mem_writeQueued hwrite with hbefore | rfl
    · obtain ⟨hbeforeNewest, hother⟩ := (newest_append_iff habove write hbefore).mp hnewest
      obtain ⟨stored, hstored, hholds⟩ := h.holds write hbefore hbeforeNewest
      have hkeys : rowKey write.table write.id ≠ rowKey queued.table queued.id := by
        intro hkeys
        obtain ⟨htables, hids⟩ := hapart write hbefore hkeys
        rw [← Bool.not_eq_true, sameRow_iff] at hother
        exact hother ⟨htables.symm, hids.symm⟩
      exact ⟨stored, ((hrows _).trans (if_neg hkeys)).trans hstored, hholds⟩
    · exact ⟨_, (hrows _).trans (if_pos rfl), rfl, rfl, rfl⟩
  · intro key stored hstored
    rw [queue_writeQueued]
    by_cases hkeys : key = rowKey queued.table queued.id
    · exact ⟨queued, List.mem_append_right _ (List.mem_singleton_self _), newest_last habove,
        hkeys.symm⟩
    · rw [hrows, if_neg hkeys] at hstored
      obtain ⟨write, hwrite, hnewest, hrow⟩ := h.owned key stored hstored
      refine ⟨write, List.mem_append_left _ hwrite,
        (newest_append_iff habove write hwrite).mpr ⟨hnewest, ?_⟩, hrow⟩
      rw [← Bool.not_eq_true, sameRow_iff]
      rintro ⟨htables, hids⟩
      exact hkeys (by rw [← hrow, htables, hids])

theorem start_offline (actor : String) (lifecycle : Option AppLifecycleSnapshot) :
    Offline { clock := Clock.fresh actor, lifecycle := lifecycle } :=
  { AckedRows.start_inv actor lifecycle with
    enqueued := rfl
    tables := by simp
    holds := by simp
    owned := by simp }

/-- An unacknowledged write leaves the client offline. -/
theorem Offline.write {config : ClientConfig} {world : World} (h : Offline world)
    {made : Call × List Input} (hwrites : made.1.WritesLocally config)
    (hunacked : Unacked (callStep config world made)) : Offline (callStep config world made) := by
  obtain ⟨call, inputs⟩ := made
  cases call with
  | applyChange _ | flushQueue | newClient => exact hwrites.elim
  | write table id row options =>
      obtain ⟨htable, hfirst, honly⟩ := hwrites
      simp only [callStep, Call.program, Prog.pure_eq, Prog.run_map] at hunacked ⊢
      rcases run_write config table id row options inputs world hfirst honly with
        hrefused | ⟨queued, tickNow, keyNow, syncedAtMs, rfl, rfl, hversion, hkey, hafter⟩
      · rw [hrefused]
        exact h
      · have hplaced := h.writeQueued htable tickNow keyNow syncedAtMs hversion hkey
        rcases hafter with hplain | hsent | hacked
        · rw [hplain]
          exact hplaced
        · rw [hsent]
          exact hplaced.send (List.mem_append_right _ (List.mem_singleton_self _))
        · exact absurd hunacked hacked

/-- Acknowledgements are not forgotten. -/
theorem unacked_of_run {program : Prog device α} {inputs : List Input} {world : World}
    (h : Unacked (program.run inputs world).2) : Unacked world := by
  induction program generalizing inputs world with
  | ret value => exact h
  | call action next ih =>
      have hnow := ih _ h
      intro exchange hexchange
      apply hnow
      cases action with
      | send _ | settleAck _ _ => exact List.mem_append_left _ hexchange
      | _ => exact hexchange

theorem unacked_of_calls {config : ClientConfig} {calls : List (Call × List Input)}
    {world : World} (h : Unacked (Run.final (callStep config) world calls)) : Unacked world := by
  induction calls generalizing world with
  | nil => exact h
  | cons made calls ih => exact unacked_of_run (ih h)

theorem Offline.writes {config : ClientConfig} {writes : List (Call × List Input)}
    {world : World} (h : Offline world) (hwrites : ∀ made ∈ writes, made.1.WritesLocally config)
    (hunacked : Unacked (Run.final (callStep config) world writes)) :
    Offline (Run.final (callStep config) world writes) := by
  induction writes generalizing world with
  | nil => exact h
  | cons made writes ih =>
      have hnow := h.write (hwrites made List.mem_cons_self) (unacked_of_calls hunacked)
      exact ih hnow (fun later hlater => hwrites later (List.mem_cons_of_mem _ hlater)) hunacked

/-- What the writes of an offline client have in common. -/
structure Written (written : List QueuedWrite) : Prop where
  sorted : written.Pairwise fun a b => a.baseVersion < b.baseVersion
  keys : (written.map (·.key)).Nodup
  apart : ∀ a ∈ written, ∀ b ∈ written,
    rowKey a.table a.id = rowKey b.table b.id → a.table = b.table ∧ a.id = b.id

/-- In the middle of a flush: the entries `kept` are behind it, those `ahead` it has not
reached, and `made` is what all flushes attempted so far. -/
structure Midway (written : List QueuedWrite) (made : List (QueuedWrite × Option Hlc))
    (kept ahead : List QueuedWrite) (world : World) : Prop where
  queue : world.storage.queue = kept ++ ahead
  sublist : (kept ++ ahead).Sublist written
  behind : ∀ write ∈ kept, Newest written write
  newest : ∀ write ∈ ahead, ∃ newest ∈ ahead,
    newest.sameRow write.table write.id = true ∧ Newest written newest
  holds : ∀ write ∈ kept ++ ahead, Newest written write → RowHolds write world
  cleaned : ∀ write ∈ written, Newest written write → write ∉ kept ++ ahead →
    Cleaned made write world
  owned : ∀ key stored, world.storage.rows key = some stored → ∃ write ∈ written,
    Newest written write ∧ rowKey write.table write.id = key

section Settle

variable {written kept rest : List QueuedWrite} {made : List (QueuedWrite × Option Hlc)}
  {write : QueuedWrite} {world : World}

theorem Written.distinct (h : Written written) : written.Nodup := h.keys.of_map

theorem sameRow_symm {a b : QueuedWrite} (h : a.sameRow b.table b.id = true) :
    b.sameRow a.table a.id = true := by
  obtain ⟨htable, hid⟩ := (sameRow_iff _ _ _).mp h
  exact (sameRow_iff _ _ _).mpr ⟨htable.symm, hid.symm⟩

theorem sublist_reached (kept rest : List QueuedWrite) (write : QueuedWrite) :
    (kept ++ rest).Sublist (kept ++ write :: rest) :=
  (List.Sublist.refl kept).append (List.sublist_cons_self write rest)

theorem not_mem_reached {entry : QueuedWrite} (hne : entry ≠ write)
    (hgone : entry ∉ kept ++ rest) : entry ∉ kept ++ write :: rest := by
  simp only [List.mem_append, List.mem_cons, not_or] at hgone ⊢
  exact ⟨hgone.1, hne, hgone.2⟩

/-- The newest write of a row is one. -/
theorem Written.newest_unique (h : Written written) {a b : QueuedWrite} (ha : a ∈ written)
    (hb : b ∈ written) (hsame : a.sameRow b.table b.id = true) (hnewest : Newest written a)
    (hnewest' : Newest written b) : a = b := by
  have hversion := (hnewest' a ha hsame).antisymm (hnewest b hb (sameRow_symm hsame))
  have hstamps : (written.map (·.baseVersion)).Nodup :=
    List.pairwise_map.mpr (h.sorted.imp fun hlt => hlt.ne)
  exact List.inj_on_of_nodup_map hstamps ha hb hversion

/-- An answered entry is found where the flush has reached. -/
theorem indexOf_reached (hkeys : ((kept ++ write :: rest).map (·.key)).Nodup)
    (hqueue : world.storage.queue = kept ++ write :: rest) :
    world.storage.indexOf write = some kept.length := by
  rw [MemoryStorage.indexOf, hqueue, List.findIdx?_eq_some_iff_getElem]
  refine ⟨by simp, by simp, fun i hi => ?_⟩
  have hne : kept[i].key ≠ write.key := by
    rw [List.map_append, List.nodup_append] at hkeys
    exact hkeys.2.2 _ (List.mem_map_of_mem (List.getElem_mem hi)) _ (by simp)
  simp [List.getElem_append_left hi, hne]

/-- Without a later entry of its row the reached entry is the newest of the queue. -/
theorem newestFor_reached (hqueue : world.storage.queue = kept ++ write :: rest)
    (hnone : ∀ later ∈ rest, later.sameRow write.table write.id = false) :
    world.storage.newestFor write.table write.id = some write := by
  rw [MemoryStorage.newestFor, hqueue, List.find?_eq_some_iff_append]
  refine ⟨by simp [QueuedWrite.sameRow], rest.reverse, kept.reverse, by simp, ?_⟩
  intro later hlater
  simp [hnone later (List.mem_reverse.mp hlater)]

/-- With one, the newest of the queue is one of the later entries. -/
theorem newestFor_later (hqueue : world.storage.queue = kept ++ write :: rest)
    {later : QueuedWrite} (hlater : later ∈ rest)
    (hsame : later.sameRow write.table write.id = true) :
    ∃ newest ∈ rest, world.storage.newestFor write.table write.id = some newest := by
  rw [MemoryStorage.newestFor, hqueue]
  cases hfound : rest.reverse.find? (QueuedWrite.sameRow · write.table write.id) with
  | none =>
      have hnot := List.find?_eq_none.mp hfound later (List.mem_reverse.mpr hlater)
      exact absurd hsame hnot
  | some newest =>
      refine ⟨newest, List.mem_reverse.mp (List.mem_of_find?_eq_some hfound), ?_⟩
      simp [List.find?_append, hfound]

/-- The later entries of the row of a reached write that is its newest are none. -/
theorem Midway.none_later (hwritten : Written written)
    (h : Midway written made kept (write :: rest) world) (hnewest : Newest written write) :
    ∀ later ∈ rest, later.sameRow write.table write.id = false := by
  intro later hlater
  by_contra hsame
  have hordered := hwritten.sorted.sublist h.sublist
  have habove := (List.pairwise_cons.mp (List.pairwise_append.mp hordered).2.1).1 later hlater
  have hmem := h.sublist.subset (List.mem_append_right kept (List.mem_cons_of_mem write hlater))
  exact absurd habove (not_lt.mpr (hnewest later hmem (Bool.not_eq_false _ ▸ hsame)))

/-- The newest of a row ahead is not the entry the flush is done with. -/
theorem Midway.newest_rest (hwritten : Written written)
    (h : Midway written made kept (write :: rest) world) :
    ∀ other ∈ rest, ∃ newest ∈ rest,
      newest.sameRow other.table other.id = true ∧ Newest written newest := by
  intro other hother
  obtain ⟨newest, hmem, hsame, hnewest⟩ := h.newest other (List.mem_cons_of_mem _ hother)
  rcases List.mem_cons.mp hmem with rfl | hrest
  · have hnone := h.none_later hwritten hnewest other hother
    rw [sameRow_symm hsame] at hnone
    cases hnone
  · exact ⟨newest, hrest, hsame, hnewest⟩

/-- What the exchanges with the server change is not the storage. -/
theorem Midway.of_storage {later : World} {ahead : List QueuedWrite}
    (h : Midway written made kept ahead world) (hstorage : later.storage = world.storage) :
    Midway written made kept ahead later := by
  obtain ⟨hqueue, hsublist, hbehind, hnewest, hholds, hcleaned, howned⟩ := h
  refine ⟨hstorage ▸ hqueue, hsublist, hbehind, hnewest, ?_, ?_, ?_⟩
  · intro entry hentry hentryNewest
    rw [RowHolds, hstorage]
    exact hholds entry hentry hentryNewest
  · intro entry hentry hentryNewest hgone
    rw [Cleaned, hstorage]
    exact hcleaned entry hentry hentryNewest hgone
  · rw [hstorage]
    exact howned

/-- The storage keeps its rows and loses the superseded entry. -/
theorem Midway.superseded (hwritten : Written written)
    (h : Midway written made kept (write :: rest) world) (hold : ¬ Newest written write)
    (committed : Hlc) {later : World}
    (hlater : later.storage = { world.storage with queue := kept ++ rest }) :
    Midway written (made ++ [(write, some committed)]) kept rest later := by
  have hrows : later.storage.rows = world.storage.rows := by rw [hlater]
  have hsub := sublist_reached kept rest write
  refine ⟨by rw [hlater], hsub.trans h.sublist, h.behind, h.newest_rest hwritten, ?_, ?_, ?_⟩
  · intro entry hentry hnewest
    rw [RowHolds, MemoryStorage.getRow, hrows]
    exact h.holds entry (hsub.subset hentry) hnewest
  · intro entry hentry hnewest hgone
    have hne : entry ≠ write := by
      rintro rfl
      exact hold hnewest
    have hcleaned := h.cleaned entry hentry hnewest (not_mem_reached hne hgone)
    refine hcleaned.mono (List.subset_append_left _ _) ?_
    rw [MemoryStorage.getRow, hrows]
    rfl
  · rw [hrows]
    exact h.owned

/-- The newest entry of a row, answered below its base, stays where it is. -/
theorem Midway.stays (hwritten : Written written)
    (h : Midway written made kept (write :: rest) world) (hnewest : Newest written write)
    (committed : Hlc) {later : World} (hlater : later.storage = world.storage) :
    Midway written (made ++ [(write, some committed)]) (kept ++ [write]) rest later := by
  have hqueue : kept ++ [write] ++ rest = kept ++ write :: rest := by simp
  refine ⟨by rw [hlater, h.queue, hqueue], hqueue ▸ h.sublist, ?_, h.newest_rest hwritten,
    ?_, ?_, ?_⟩
  · intro entry hentry
    rcases List.mem_append.mp hentry with hkept | hlast
    · exact h.behind entry hkept
    · exact List.mem_singleton.mp hlast ▸ hnewest
  · rw [hqueue]
    intro entry hentry hentryNewest
    rw [RowHolds, hlater]
    exact h.holds entry hentry hentryNewest
  · rw [hqueue]
    intro entry hentry hentryNewest hgone
    refine (h.cleaned entry hentry hentryNewest hgone).mono (List.subset_append_left _ _) ?_
    rw [hlater]
  · rw [hlater]
    exact h.owned

/-- The newest entry of a row, answered at or above its base, is gone, and its row is
clean at the committed version. -/
theorem Midway.settles (hwritten : Written written)
    (h : Midway written made kept (write :: rest) world) (hnewest : Newest written write)
    {committed : Hlc} (habove : ¬ committed < write.baseVersion) {later : World}
    {stored : StoredRow} (hrow : stored.row = write.payload) (hversion : stored.version = committed)
    (hclean : stored.dirty = false)
    (hlater : later.storage = { world.storage with queue := kept ++ rest }.putRow
      write.table write.id stored) :
    Midway written (made ++ [(write, some committed)]) kept rest later := by
  have hdistinct : (kept ++ write :: rest).Nodup := hwritten.distinct.sublist h.sublist
  have hsub := sublist_reached kept rest write
  have hmem : write ∈ written := h.sublist.subset (by simp)
  have hgone : write ∉ kept ++ rest := by
    have hsplit := List.nodup_middle.mp hdistinct
    exact (List.nodup_cons.mp hsplit).1
  have hrows : ∀ key, later.storage.rows key =
      if key = rowKey write.table write.id then some stored else world.storage.rows key := by
    rw [hlater]
    exact fun _ => rfl
  have hother : ∀ entry ∈ written, Newest written entry → entry ≠ write →
      later.storage.getRow entry.table entry.id = world.storage.getRow entry.table entry.id := by
    intro entry hentry hentryNewest hne
    refine (hrows _).trans (if_neg fun hkeys => hne ?_)
    exact hwritten.newest_unique hentry hmem
      ((sameRow_iff _ _ _).mpr (hwritten.apart entry hentry write hmem hkeys)) hentryNewest hnewest
  refine ⟨by rw [hlater]; rfl, hsub.trans h.sublist, h.behind, h.newest_rest hwritten, ?_, ?_, ?_⟩
  · intro entry hentry hentryNewest
    have hne : entry ≠ write := by
      rintro rfl
      exact hgone hentry
    obtain ⟨current, hcurrent, hholds⟩ := h.holds entry (hsub.subset hentry) hentryNewest
    have hentryWritten := h.sublist.subset (hsub.subset hentry)
    exact ⟨current, (hother entry hentryWritten hentryNewest hne).trans hcurrent, hholds⟩
  · intro entry hentry hentryNewest hentryGone
    by_cases hne : entry = write
    · subst hne
      exact ⟨committed, stored, List.mem_append_right _ (List.mem_singleton_self _), habove,
        (hrows _).trans (if_pos rfl), hrow, hversion, hclean⟩
    · have hcleaned := h.cleaned entry hentry hentryNewest (not_mem_reached hne hentryGone)
      exact hcleaned.mono (List.subset_append_left _ _) (hother entry hentry hentryNewest hne)
  · intro key current hcurrent
    by_cases hkey : key = rowKey write.table write.id
    · exact ⟨write, hmem, hnewest, hkey.symm⟩
    · rw [hrows, if_neg hkey] at hcurrent
      exact h.owned key current hcurrent

/-- What the settlement of the reached entry leaves. -/
theorem Midway.settleAck (hwritten : Written written)
    (h : Midway written made kept (write :: rest) world) (committed : Hlc) (now : Nat)
    {later : World}
    (hlater : later.storage = (world.storage.settleAck write committed now).2) :
    Midway written (made ++ [(write, some committed)])
      (if Stays written write committed then kept ++ [write] else kept) rest later := by
  have hmem : write ∈ written := h.sublist.subset (by simp)
  have hkeys : ((kept ++ write :: rest).map (·.key)).Nodup :=
    hwritten.keys.sublist (h.sublist.map _)
  have hindex := indexOf_reached hkeys h.queue
  have herase : world.storage.queue.eraseIdx kept.length = kept ++ rest := by
    simp [h.queue, List.eraseIdx_append_of_length_le]
  by_cases hnewest : Newest written write
  · obtain ⟨stored, hstored, hrow, hversion, -⟩ := h.holds write (by simp) hnewest
    have hslot : SettlesNewest world.storage write kept.length write stored :=
      ⟨hindex, newestFor_reached h.queue (h.none_later hwritten hnewest), hstored,
        rfl, rfl, hversion⟩
    rw [MemoryStorage.settleAck_exact committed now hslot, hversion] at hlater
    by_cases hbelow : committed < write.baseVersion
    · rw [if_pos ⟨hnewest, hbelow⟩]
      rw [if_pos hbelow] at hlater
      exact h.stays hwritten hnewest committed hlater
    · rw [if_neg fun hstays => hbelow hstays.2]
      rw [if_neg hbelow, herase] at hlater
      refine h.settles hwritten hnewest hbelow ?_ rfl rfl hlater
      exact hrow
  · rw [if_neg fun hstays => hnewest hstays.1]
    obtain ⟨newest, hahead, hsame, hrowNewest⟩ := h.newest write List.mem_cons_self
    have hrest : newest ∈ rest := by
      rcases List.mem_cons.mp hahead with rfl | hrest
      · exact absurd hrowNewest hnewest
      · exact hrest
    obtain ⟨latest, hlatest, hfound⟩ := newestFor_later h.queue hrest hsame
    have hne : latest.key ≠ write.key := by
      intro hkey
      have hnodup := (List.nodup_append.mp (List.map_append ▸ hkeys)).2.1
      rw [List.map_cons, List.nodup_cons] at hnodup
      exact hnodup.1 (hkey ▸ List.mem_map_of_mem hlatest)
    obtain ⟨stored, hstored, -⟩ := h.holds newest (by simp [hrest]) hrowNewest
    obtain ⟨htable, hid⟩ := (sameRow_iff _ _ _).mp hsame
    rw [htable, hid] at hstored
    have hsettled : (world.storage.settleAck write committed now).2 =
        { world.storage with queue := kept ++ rest } := by
      rw [MemoryStorage.settleAck_eq, MemoryStorage.without_eq, hstored, hfound, hindex, ← herase]
      simp [hne]
    exact h.superseded hwritten hnewest committed (hlater.trans hsettled)

/-- Between two entries a flush may end as well. -/
theorem Midway.ended {ahead : List QueuedWrite} (h : Midway written made kept ahead world) :
    Midway written made [] (kept ++ ahead) world := by
  refine ⟨h.queue, h.sublist, by simp, ?_, h.holds, h.cleaned, h.owned⟩
  intro entry hentry
  rcases List.mem_append.mp hentry with hkept | hahead
  · exact ⟨entry, hentry, (sameRow_iff _ _ _).mpr ⟨rfl, rfl⟩, h.behind entry hkept⟩
  · obtain ⟨newest, hmem, hnewest⟩ := h.newest entry hahead
    exact ⟨newest, List.mem_append_right _ hmem, hnewest⟩

theorem Midway.mono {ahead : List QueuedWrite} (h : Midway written made kept ahead world)
    {made' : List (QueuedWrite × Option Hlc)} (hsub : made ⊆ made') :
    Midway written made' kept ahead world :=
  { h with cleaned := fun entry hentry hnewest hgone =>
      (h.cleaned entry hentry hnewest hgone).mono hsub rfl }

/-- A flush from the entry it has reached: its requests, and what it leaves. -/
theorem Midway.flushEach (hwritten : Written written) {config : ClientConfig}
    (hsend : config.hasSend = true) {ahead : List QueuedWrite}
    (h : Midway written made kept ahead world) (sent : Nat) (inputs : List Input) :
    let after := ((flushEach config sent ahead).run inputs world).2
    Midway written (made ++ Drain.attempts ahead (answer inputs)) []
        (kept ++ Drain.left (Stays written) ahead (answer inputs)) after ∧
      after.sent = world.sent ++ (Drain.attempts ahead (answer inputs)).map (·.1.change) ∧
      after.lifecycle = world.lifecycle := by
  induction ahead generalizing made kept world sent inputs with
  | nil =>
      have hended := h.ended
      rw [List.append_nil] at hended
      refine ⟨?_, by simp [Drain.attempts, Dart.flushEach, Prog.run], rfl⟩
      simpa [Drain.attempts, Drain.left, Dart.flushEach, Prog.run] using hended
  | cons write rest ih =>
      have hanswer : answer inputs 0 = match (inputs.tail.headD {}).response with
          | .failed _ => none
          | .committed version => some version := by simp [answer]
      have hlater : (fun i => answer inputs (i + 1)) = answer inputs.tail.tail.tail := by
        funext i
        simp only [answer, List.drop_drop, ← List.drop_one]
        congr 4
        omega
      simp only [Dart.flushEach, doSend, hsend, if_true, act, Prog.call_bind, Prog.ret_bind,
        Prog.run, perform]
      cases hresponse : (inputs.tail.headD {}).response with
      | failed message =>
          have hnone : answer inputs 0 = none := by rw [hanswer, hresponse]
          simp only [Drain.attempts, Drain.left, hnone, Prog.pure_eq, Prog.ret_bind, Prog.run]
          refine ⟨(h.ended.mono (List.subset_append_left _ _)).of_storage rfl, ?_, trivial⟩
          simp [World.sent]
      | committed version =>
          have hsome : answer inputs 0 = some version := by rw [hanswer, hresponse]
          simp only [Drain.attempts, Drain.left, hsome, hlater, Prog.pure_eq, Prog.ret_bind,
            Prog.run, perform]
          let now := (inputs.tail.tail.headD {}).now
          let settled : World := { world with
            storage := (world.storage.settleAck write version now).2
            exchanges := world.exchanges ++ [.sent write.change] ++ [.acked write] }
          have hsettled : Midway written (made ++ [(write, some version)])
              (if Stays written write version then kept ++ [write] else kept) rest settled :=
            h.settleAck hwritten version now rfl
          obtain ⟨hmidway, hsent, hlifecycle⟩ := ih hsettled (sent + 1) inputs.tail.tail.tail
          refine ⟨?_, ?_, hlifecycle⟩
          · convert hmidway using 1
            · simp
            · split <;> simp
          · refine hsent.trans ?_
            simp [World.sent, settled]

end Settle

/-- Between two flushes. -/
def Draining (written : List QueuedWrite) (made : List (QueuedWrite × Option Hlc))
    (world : World) : Prop :=
  ∃ queue, Midway written made [] queue world

theorem Draining.queue_distinct {written : List QueuedWrite}
    {made : List (QueuedWrite × Option Hlc)} {world : World} (hwritten : Written written)
    (h : Draining written made world) : world.storage.queue.Nodup := by
  obtain ⟨queue, hmidway⟩ := h
  rw [hmidway.queue]
  exact hwritten.distinct.sublist hmidway.sublist

/-- What one flush between two others does. -/
structure FlushStep (written : List QueuedWrite) (made : List (QueuedWrite × Option Hlc))
    (config : ClientConfig) (world : World) (inputs : List Input) : Prop where
  draining : Draining written (made ++ flushAttempts config world inputs)
    (flush config world inputs)
  round : Drain.Round (Stays written) world.storage.queue (flushAttempts config world inputs)
    (flush config world inputs).storage.queue
  sent : (flush config world inputs).sent =
    world.sent ++ (flushAttempts config world inputs).map (·.1.change)

theorem Draining.flushStep {written : List QueuedWrite}
    {made : List (QueuedWrite × Option Hlc)} {world : World} (hwritten : Written written)
    (h : Draining written made world) (config : ClientConfig) (inputs : List Input) :
    FlushStep written made config world inputs := by
  have hdistinct := h.queue_distinct hwritten
  obtain ⟨queue, hmidway⟩ := h
  obtain hqueue : world.storage.queue = queue := hmidway.queue
  subst hqueue
  have hidle : flush config world inputs = world → flushAttempts config world inputs = [] →
      FlushStep written made config world inputs := by
    intro hflush hnone
    refine ⟨?_, ?_, ?_⟩
    · rw [hflush, hnone, List.append_nil]
      exact ⟨_, hmidway⟩
    · rw [hflush, hnone]
      exact .idle _ _
    · simp [hflush, hnone]
  cases hrefusal : world.refusal .canWrite with
  | some phase =>
      apply hidle
      · simp only [Dart.flush, flushQueue, requireCapability, act, Prog.call_bind, Prog.ret_bind,
          Prog.run, perform, hrefusal, Prog.pure_eq]
      · simp [flushAttempts, hrefusal]
  | none =>
      have hflush : Dart.flush config world inputs =
          ((flushEach config 0 world.storage.queue).run (inputs.drop 2) world).2 := by
        simp only [Dart.flush, flushQueue, requireCapability, act, Prog.call_bind, Prog.ret_bind,
          Prog.run, perform, hrefusal, MemoryStorage.pending, ← List.drop_one, List.drop_drop]
      by_cases hsend : config.hasSend = true
      · have hmade : flushAttempts config world inputs =
            Drain.attempts world.storage.queue (answer (inputs.drop 2)) :=
          if_pos ⟨hsend, hrefusal⟩
        obtain ⟨hafter, hsent, -⟩ := hmidway.flushEach hwritten hsend 0 (inputs.drop 2)
        rw [← hflush] at hafter hsent
        refine ⟨⟨_, hmade ▸ hafter⟩, ?_, hmade ▸ hsent⟩
        rw [hmade, hafter.queue]
        exact Drain.round_left _ hdistinct _
      · apply hidle
        · rw [hflush]
          cases world.storage.queue with
          | nil => rfl
          | cons write rest =>
              simp only [Dart.flushEach, doSend, hsend, Prog.pure_eq, Prog.ret_bind, Prog.run,
                if_false, Bool.false_eq_true]
        · simp [flushAttempts, hsend]

/-- What the flushes of a run do, one after another. -/
theorem Draining.rounds {written : List QueuedWrite} (hwritten : Written written)
    (config : ClientConfig) (rounds : List (List Input)) {made : List (QueuedWrite × Option Hlc)}
    {world : World} (h : Draining written made world) :
    Draining written (made ++ allAttempts config world rounds) (flushes config rounds world) ∧
      Run.Along (flush config) (fun world inputs => ∃ made,
        FlushStep written made config world inputs) world rounds := by
  induction rounds generalizing made world with
  | nil => exact ⟨by simpa [allAttempts, Drain.log, flushes] using h, trivial⟩
  | cons inputs rounds ih =>
      have hstep := h.flushStep hwritten config inputs
      obtain ⟨hfinal, hrest⟩ := ih hstep.draining
      refine ⟨?_, ⟨made, hstep⟩, hrest⟩
      simpa [allAttempts, Drain.log, flushes, List.append_assoc] using hfinal

theorem Offline.written {world : World} (h : Offline world) : Written world.storage.queue :=
  ⟨h.sorted, h.keys, h.apart⟩

/-- A client that worked offline is ready to drain its queue. -/
theorem Offline.draining {world : World} (h : Offline world) :
    Draining world.storage.queue [] world := by
  refine ⟨world.storage.queue, rfl, List.Sublist.refl _, by simp, ?_, h.holds, ?_, h.owned⟩
  · intro write hwrite
    obtain ⟨newest, hfound, hmem, hlatest⟩ := h.newestFor hwrite
    obtain ⟨-, htable, hid⟩ := MemoryStorage.newestFor_some hfound
    refine ⟨newest, hmem, (sameRow_iff _ _ _).mpr ⟨htable, hid⟩, ?_⟩
    intro other hother hotherSame
    refine hlatest other hother ?_
    rwa [htable, hid] at hotherSame
  · exact fun write hwrite _ hgone => absurd hwrite hgone

end FlushQueue

open FlushQueue

/-- However the writes of an offline client were made, and however the requests of any
number of flushes are answered, the flushes drain the queue exactly. -/
theorem flushes_drain_the_queue (config : ClientConfig) (actor : String)
    (lifecycle : Option AppLifecycleSnapshot) (writes : List (Call × List Input))
    (rounds : List (List Input)) (hwrites : ∀ made ∈ writes, made.1.WritesLocally config) :
    let written := Run.final (callStep config)
      { clock := Clock.fresh actor, lifecycle := lifecycle } writes
    Unacked written → DrainsExactly config written rounds := by
  intro written hunacked
  have hoffline : Offline written := (start_offline actor lifecycle).writes hwrites hunacked
  obtain ⟨hfinal, hsteps⟩ := hoffline.draining.rounds hoffline.written config rounds
  have hrounds : Drain.Rounds (Stays written.queued) (flush config) (·.storage.queue)
      (flushAttempts config) written rounds := by
    rw [← hoffline.enqueued]
    exact hsteps.mono fun _ _ ⟨_, hstep⟩ => hstep.round
  refine ⟨hoffline.enqueued, hoffline.enqueued ▸ hoffline.sorted,
    hsteps.mono fun _ _ ⟨_, hstep⟩ => hstep.sent, hrounds, ?_, ?_, ?_⟩
  · refine hsteps.mono fun world inputs _ hsend hadmits hall => ?_
    simp only [flushAttempts, hsend, hadmits, and_self, if_true] at hall ⊢
    exact Drain.attempts_all hall
  · refine (hrounds.never_again hoffline.written.distinct).imp_of_mem ?_
    intro earlier later hearlier hlater hagain hsettles hkey
    refine hagain hsettles (hoffline.eq_of_key ?_ ?_ hkey)
    · exact hrounds.mem_of_log hlater
    · exact hrounds.mem_of_log hearlier
  · intro hsucceeded
    have hempty : (flushes config rounds written).storage.queue = [] :=
      hrounds.drained fun write hwrite => hsucceeded write (hoffline.enqueued ▸ hwrite)
    obtain ⟨queue, hmidway⟩ := hfinal
    obtain rfl : queue = [] := hmidway.queue.symm.trans hempty
    rw [← hoffline.enqueued]
    refine ⟨hempty, fun write hwrite hnewest => ?_, hmidway.owned⟩
    simpa using hmidway.cleaned write hwrite hnewest (by simp)

/-- Two writes to one row whose sends fail, and a local one to another row. -/
def offlineWrites : List (Call × List Input) :=
  [failedWrite, (writeRow "final", answered 2 (.failed "offline")),
    (.write "todos" "b" (some (.str "other")) { mode := some .localOnly }, answered 3 (.failed ""))]

/-- What the outside answers a flush whose requests are answered in this order. -/
def replies (responses : List Response) : List Input :=
  {} :: {} :: responses.flatMap fun response => [{}, { response := response }, { now := 9 }]

theorem two_flushes_drain_three_writes :
    let written := Run.final (callStep online) { clock := Clock.fresh "device", lifecycle := none }
      offlineWrites
    let committed : Response := .committed { wallMs := 8, counter := 0, actor := "server" }
    let rounds := [replies [committed, .failed "offline"], replies [committed, committed]]
    DrainsExactly online written rounds ∧ (flushes online rounds written).storage.queue = [] := by
  intro written committed rounds
  refine ⟨flushes_drain_the_queue online "device" none offlineWrites rounds ?_ (by decide), rfl⟩
  simp [offlineWrites, failedWrite, writeRow, Call.WritesLocally, online]
  decide

end ZedSync.Dart
