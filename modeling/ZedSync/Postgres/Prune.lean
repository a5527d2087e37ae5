import Mathlib.Data.List.MinMax
import Mathlib.Order.Nat
import ZedSync.Js.Convergence
import ZedSync.Postgres.CatchUp

/-!
`zed_sync.prune_outbox`, and a replica that catches up over the pruned outbox. Pruning
takes old entries that a later one of the same row has overtaken. The last entry of a
row decides what a replica shows of it, whatever came before, so the replica cannot tell.
-/

namespace ZedSync.Postgres

/-- `o2.table_name = o.table_name AND o2.row_id = o.row_id`. -/
def LogEntry.sameRow (first second : LogEntry) : Bool :=
  first.tableName == second.tableName && first.rowId == second.rowId

/-- `SELECT max(o2.sequence) FROM zed_sync.outbox o2 WHERE ..`. -/
def lastSequence (outbox : List LogEntry) (entry : LogEntry) : Nat :=
  ((outbox.filter entry.sameRow).map LogEntry.sequence).foldr max 0

/-- The `DELETE`, where `now() - retain_interval` is the cutoff; of a null interval it is
null, and no entry is before it. -/
def pruneOutbox (cutoff : Option Int) (outbox : List LogEntry) : List LogEntry :=
  outbox.filter fun entry =>
    !(cutoff.any (entry.committedAt < ·) && entry.sequence < lastSequence outbox entry)

/-- `pruned`, the number of rows deleted. -/
def prunedCount (cutoff : Option Int) (outbox : List LogEntry) : Nat :=
  outbox.length - (pruneOutbox cutoff outbox).length

/-- What a client decodes of an entry. -/
def LogEntry.change (entry : LogEntry) : ChangeEvent :=
  { table := entry.tableName, op := entry.operation, id := entry.rowId
    version := entry.version.hlc, row := entry.rowData, writeKey := entry.writeKey }

/-- All entries that were ever committed, and those that are left of them. -/
structure Retained where
  committed : List LogEntry := []
  left : List LogEntry := []

inductive RetentionEvent where
  | commit (entry : LogEntry)
  | prune (cutoff : Option Int)
  deriving Repr

def retentionStep (outbox : Retained) : RetentionEvent → Retained
  | .commit entry =>
      { committed := outbox.committed ++ [entry], left := outbox.left ++ [entry] }
  | .prune cutoff => { outbox with left := pruneOutbox cutoff outbox.left }

/-- No entry of the row is after it. -/
def LastOfRow (outbox : List LogEntry) (entry : LogEntry) : Prop :=
  entry ∈ outbox ∧ ∀ other ∈ outbox, entry.sameRow other = true → other.sequence ≤ entry.sequence

theorem lastSequence_le {outbox : List LogEntry} {entry : LogEntry}
    (h : ∀ other ∈ outbox, entry.sameRow other = true → other.sequence ≤ entry.sequence) :
    lastSequence outbox entry ≤ entry.sequence := by
  refine List.max_le_of_forall_le ((outbox.filter entry.sameRow).map LogEntry.sequence)
    entry.sequence ?_
  intro sequence hsequence
  obtain ⟨other, hother, rfl⟩ := List.mem_map.mp hsequence
  obtain ⟨hmem, hsame⟩ := List.mem_filter.mp hother
  exact h other hmem hsame

/-- The last entry of a row is never pruned. -/
theorem LastOfRow.pruned {outbox : List LogEntry} {entry : LogEntry}
    (h : LastOfRow outbox entry) (cutoff : Option Int) : entry ∈ pruneOutbox cutoff outbox := by
  have hle := lastSequence_le h.2
  refine List.mem_filter.mpr ⟨h.1, ?_⟩
  simp [not_lt.mpr hle]

/-- A second run with the same cutoff prunes nothing new. -/
theorem prunedCount_again (cutoff : Option Int) (outbox : List LogEntry) :
    prunedCount cutoff (pruneOutbox cutoff outbox) = 0 := by
  have hsub : (pruneOutbox cutoff outbox).Sublist outbox := List.filter_sublist
  have hlast : ∀ entry, lastSequence (pruneOutbox cutoff outbox) entry ≤
      lastSequence outbox entry := by
    intro entry
    refine List.max_le_of_forall_le (((pruneOutbox cutoff outbox).filter entry.sameRow).map
      LogEntry.sequence) (lastSequence outbox entry) ?_
    intro sequence hsequence
    have hmem := ((hsub.filter entry.sameRow).map LogEntry.sequence).subset hsequence
    exact List.le_max_of_le hmem (le_refl sequence)
  have hsame : pruneOutbox cutoff (pruneOutbox cutoff outbox) = pruneOutbox cutoff outbox := by
    refine List.filter_eq_self.mpr ?_
    intro entry hentry
    have hkept := (List.mem_filter.mp hentry).2
    have hle := hlast entry
    simp only [Bool.not_eq_true', Bool.and_eq_false_iff, decide_eq_false_iff_not] at hkept ⊢
    rcases hkept with hyoung | hlatest
    · exact Or.inl hyoung
    · exact Or.inr fun hlt => hlatest (hlt.trans_le hle)
  rw [prunedCount, hsame, Nat.sub_self]

/-- What is left is in the order of the commits, and has the last entry of every row. -/
structure Retained.Inv (outbox : Retained) : Prop where
  sublist : outbox.left.Sublist outbox.committed
  last : ∀ entry, LastOfRow outbox.committed entry → entry ∈ outbox.left

theorem Retained.Inv.step {outbox : Retained} (h : outbox.Inv) (event : RetentionEvent) :
    (retentionStep outbox event).Inv := by
  cases event with
  | commit entry =>
      refine ⟨h.sublist.append (List.Sublist.refl [entry]), ?_⟩
      rintro last ⟨hlast, hlargest⟩
      rcases List.mem_append.mp hlast with hold | hnew
      · refine List.mem_append_left _ (h.last last ⟨hold, ?_⟩)
        exact fun other hother => hlargest other (List.mem_append_left _ hother)
      · exact List.mem_append_right _ hnew
  | prune cutoff =>
      refine ⟨List.filter_sublist.trans h.sublist, ?_⟩
      intro last hlast
      have hleft : LastOfRow outbox.left last :=
        ⟨h.last last hlast, fun other hother => hlast.2 other (h.sublist.subset hother)⟩
      exact hleft.pruned cutoff

theorem Retained.Inv.run (events : List RetentionEvent) :
    (Run.final retentionStep {} events).Inv :=
  Run.preserved (J := Retained.Inv) (fun _ event h => h.step event) events
    ⟨List.Sublist.refl [], fun _ hlast => hlast.1⟩

/-- An outbox as its writers leave it: the sequence is ascending, the versions of a row
increase with it, and the table has checked every entry. -/
structure OutboxLog (log : List LogEntry) : Prop where
  sequences : log.Pairwise (·.sequence < ·.sequence)
  versions : log.Pairwise fun earlier later =>
    earlier.sameRow later = true → earlier.version.hlc < later.version.hlc
  admitted : ∀ entry ∈ log, entry.admitted = true

theorem LogEntry.sameRow_iff {first second : LogEntry} : first.sameRow second = true ↔
    first.tableName = second.tableName ∧ first.rowId = second.rowId := by
  simp [sameRow]

/-- The table names the outbox admits are made of letters, digits and underscores. -/
theorem tableNamePattern_separable {name : String} (h : tableNamePattern name = true) :
    Js.Separable name := by
  have hchar : ∀ char : Char, (char.isLower || char.isDigit || char == '_') = true →
      char ≠ '\x00' := by
    rintro char hchar rfl
    cases hchar
  intro hmem
  unfold tableNamePattern at h
  split at h
  · cases h
  · rename_i first rest hname
    rw [hname] at hmem
    simp only [Bool.and_eq_true, List.all_eq_true] at h
    obtain ⟨⟨hfirst, -⟩, hrest⟩ := h
    rcases List.mem_cons.mp hmem with hnull | hnull
    · exact hchar first (by simp [hfirst]) hnull.symm
    · exact hchar _ (hrest _ hnull) rfl

namespace OutboxLog

variable {log : List LogEntry} {table id : String}

theorem separable (h : OutboxLog log) {entry : LogEntry} (hentry : entry ∈ log) :
    Js.Separable entry.change.table := by
  have hadmitted := h.admitted entry hentry
  simp only [OutboxEntry.admitted, Bool.and_eq_true] at hadmitted
  exact tableNamePattern_separable hadmitted.1.1.1

/-- Of two entries of a row the later has the larger version. -/
theorem newer (h : OutboxLog log) {earlier later : LogEntry} (hearlier : earlier ∈ log)
    (hlater : later ∈ log) (hsame : earlier.sameRow later = true)
    (hlt : earlier.sequence < later.sequence) : earlier.version.hlc < later.version.hlc := by
  let newerLater : LogEntry → LogEntry → Prop := fun first second =>
    first.sequence < second.sequence → first.sameRow second = true →
      first.version.hlc < second.version.hlc
  have hforward : log.Pairwise newerLater := by
    refine h.versions.imp ?_
    intro first second hnewer _ hsecond
    exact hnewer hsecond
  have hbackward : log.Pairwise (flip newerLater) :=
    h.sequences.imp fun hless hmore => absurd hmore hless.not_gt
  have hself : ∀ entry ∈ log, newerLater entry entry :=
    fun entry _ hless => absurd hless (lt_irrefl _)
  exact hforward.forall_of_forall_of_flip hself hbackward hearlier hlater hlt hsame

/-- The entries of a row after a sequence number. -/
def rowAfter (n : Nat) (table id : String) (log : List LogEntry) : List LogEntry :=
  (log.filter (n < ·.sequence)).filter fun entry => entry.tableName == table && entry.rowId == id

theorem mem_rowAfter {n : Nat} {entry : LogEntry} : entry ∈ rowAfter n table id log ↔
    entry ∈ log ∧ n < entry.sequence ∧ entry.tableName = table ∧ entry.rowId = id := by
  simp only [rowAfter, List.mem_filter, Bool.and_eq_true, beq_iff_eq, decide_eq_true_eq, and_assoc]

theorem rowLog_changes (n : Nat) (table id : String) (log : List LogEntry) :
    Js.rowLog ((log.filter (n < ·.sequence)).map LogEntry.change) table id =
      (rowAfter n table id log).map LogEntry.change := by
  rw [Js.rowLog, List.filter_map]
  rfl

theorem rowAfter_versions (h : OutboxLog log) (n : Nat) (table id : String) :
    ((rowAfter n table id log).map LogEntry.change).Pairwise (·.version < ·.version) := by
  have hsub : (rowAfter n table id log).Sublist log :=
    List.filter_sublist.trans List.filter_sublist
  refine List.pairwise_map.mpr ((h.versions.sublist hsub).imp_of_mem ?_)
  intro earlier later hearlier hlater hnewer
  obtain ⟨-, -, htable, hid⟩ := mem_rowAfter.mp hearlier
  obtain ⟨-, -, htable', hid'⟩ := mem_rowAfter.mp hlater
  exact hnewer (LogEntry.sameRow_iff.mpr ⟨htable.trans htable'.symm, hid.trans hid'.symm⟩)

/-- The last of the entries of a row after a number is the last of the row. -/
theorem lastOfRow (h : OutboxLog log) {n : Nat} {last : LogEntry}
    (hlast : (rowAfter n table id log).getLast? = some last) : LastOfRow log last := by
  obtain ⟨earlier, hsplit⟩ := List.getLast?_eq_some_iff.mp hlast
  obtain ⟨hmem, hafter, htable, hid⟩ := mem_rowAfter.mp (List.mem_of_getLast? hlast)
  refine ⟨hmem, ?_⟩
  intro other hother hsame
  obtain ⟨htable', hid'⟩ := LogEntry.sameRow_iff.mp hsame
  by_cases hn : n < other.sequence
  · have hin : other ∈ rowAfter n table id log :=
      mem_rowAfter.mpr ⟨hother, hn, htable'.symm.trans htable, hid'.symm.trans hid⟩
    have hsub : (rowAfter n table id log).Sublist log :=
      List.filter_sublist.trans List.filter_sublist
    have hsorted := h.sequences.sublist hsub
    rw [hsplit] at hin hsorted
    rcases List.mem_append.mp hin with hbefore | hself
    · exact ((List.pairwise_append.mp hsorted).2.2 other hbefore last
        (List.mem_singleton_self last)).le
    · rw [List.mem_singleton.mp hself]
  · omega

end OutboxLog

/-- What a row shows after the entries that are left is what it shows after all of them. -/
theorem Retained.Inv.shows {outbox : Retained} (h : outbox.Inv) (hlog : OutboxLog outbox.committed)
    (n : Nat) (table id : String) {kept : Option ChangeEvent}
    (hkept : ∀ change, kept = some change → ∃ entry ∈ outbox.committed,
      entry.sequence ≤ n ∧ entry.tableName = table ∧ entry.rowId = id ∧ change = entry.change) :
    (Js.keepRow table id kept
      ((outbox.left.filter (n < ·.sequence)).map LogEntry.change)).bind ChangeEvent.live =
    (Js.keepRow table id kept
      ((outbox.committed.filter (n < ·.sequence)).map LogEntry.change)).bind ChangeEvent.live := by
  rw [Js.keepRow, Js.keepRow, OutboxLog.rowLog_changes, OutboxLog.rowLog_changes]
  apply Newest.thinned_shows
  · exact (((h.sublist.filter _).filter _).map _)
  · intro last hlast
    rw [List.getLast?_map] at hlast
    obtain ⟨entry, hentry, rfl⟩ := Option.map_eq_some_iff.mp hlast
    obtain ⟨-, hafter, htable, hid⟩ := OutboxLog.mem_rowAfter.mp (List.mem_of_getLast? hentry)
    have hleft : entry ∈ outbox.left := h.last entry (hlog.lastOfRow hentry)
    exact List.mem_map_of_mem (OutboxLog.mem_rowAfter.mpr ⟨hleft, hafter, htable, hid⟩)
  · exact hlog.rowAfter_versions n table id
  · intro change hchange value hvalue
    obtain ⟨earlier, hearlier, hbefore, htable, hid, rfl⟩ := hkept change hchange
    obtain ⟨later, hlater, rfl⟩ := List.mem_map.mp hvalue
    obtain ⟨hmem, hafter, htable', hid'⟩ := OutboxLog.mem_rowAfter.mp hlater
    have hsame : earlier.sameRow later = true :=
      LogEntry.sameRow_iff.mpr ⟨htable.trans htable'.symm, hid.trans hid'.symm⟩
    exact (hlog.newer hearlier hmem hsame (by omega)).le
  · intro value _ hcreates
    cases hop : value.op with
    | upsert => simp [Js.creates, hop] at hcreates
    | delete => simp [ChangeEvent.live, hop]

/-- The deliveries are the entries, in order, each with whatever clock reading. -/
def Applies (deliveries : List (ChangeEvent × List Js.Input)) (entries : List LogEntry) : Prop :=
  deliveries.map Prod.fst = entries.map LogEntry.change

theorem Applies.separable {log entries : List LogEntry} (hlog : OutboxLog log)
    (hsub : entries ⊆ log) {deliveries : List (ChangeEvent × List Js.Input)}
    (h : Applies deliveries entries) : ∀ delivery ∈ deliveries, Js.Separable delivery.1.table := by
  intro delivery hdelivery
  have hmem : delivery.1 ∈ entries.map LogEntry.change :=
    h ▸ List.mem_map_of_mem hdelivery
  obtain ⟨entry, hentry, hchange⟩ := List.mem_map.mp hmem
  rw [← hchange]
  exact hlog.separable (hsub hentry)

/-- However an outbox was committed to and pruned, a replica without local writes that has
applied its entries up to a sequence number shows the same rows after the later entries
that are left as after all later entries. And pruning takes the last entry of no row. -/
theorem pruning_is_invisible (config : Js.ClientConfig) (start : Js.World)
    (events : List RetentionEvent) (n : Nat)
    (applied thinned full : List (ChangeEvent × List Js.Input))
    (hempty : start.store.Empty)
    (hlog : OutboxLog (Run.final retentionStep {} events).committed)
    (happlied : Applies applied
      ((Run.final retentionStep {} events).committed.filter (·.sequence ≤ n)))
    (hthinned : Applies thinned
      ((Run.final retentionStep {} events).left.filter (n < ·.sequence)))
    (hfull : Applies full
      ((Run.final retentionStep {} events).committed.filter (n < ·.sequence))) :
    let replica := Js.deliverAll config start applied
    (∀ table id, (Js.deliverAll config replica thinned).visible table id =
      (Js.deliverAll config replica full).visible table id) ∧
    ∀ cutoff outbox entry, LastOfRow outbox entry → entry ∈ pruneOutbox cutoff outbox := by
  intro replica
  refine ⟨?_, fun cutoff outbox entry hlast => hlast.pruned cutoff⟩
  intro anyTable anyId
  obtain ⟨table, id, htable, hkey⟩ := Js.exists_separable anyTable anyId
  have hinv : (Run.final retentionStep {} events).Inv := Retained.Inv.run events
  have hsepApplied := happlied.separable hlog List.filter_sublist.subset
  have hsepFull := hfull.separable hlog List.filter_sublist.subset
  have hsepThinned := hthinned.separable hlog
    (List.filter_sublist.trans hinv.sublist).subset
  have hanyRow : ∀ world : Js.World, world.visible anyTable anyId = world.visible table id := by
    intro world
    simp only [Js.World.visible, Js.Store.getRow, hkey]
  rw [hanyRow, hanyRow]
  have habsent : start.store.getRow table id = none := hempty.rows _
  by_cases hadmits : start.Admits config table
  · have hfresh : Js.Shows config table id none start :=
      ⟨hadmits, fun _ => habsent, fun _ hnone => by cases hnone⟩
    have hreplica := hfresh.deliverEach applied htable hsepApplied
    have hkept : ∀ change, Js.keepRow table id none (applied.map Prod.fst) = some change →
        ∃ entry ∈ (Run.final retentionStep {} events).committed, entry.sequence ≤ n ∧
          entry.tableName = table ∧ entry.rowId = id ∧ change = entry.change := by
      intro change hchange
      rcases Newest.keep_mem _ _ hchange with hnone | hmem
      · cases hnone
      · obtain ⟨hmem, hrow⟩ := Js.mem_rowLog.mp hmem
        rw [happlied] at hmem
        obtain ⟨entry, hentry, rfl⟩ := List.mem_map.mp hmem
        obtain ⟨hcommitted, hle⟩ := List.mem_filter.mp hentry
        exact ⟨entry, hcommitted, by simpa using hle, hrow.1, hrow.2, rfl⟩
    rw [(hreplica.deliverEach thinned htable hsepThinned).visible,
      (hreplica.deliverEach full htable hsepFull).visible, hthinned, hfull]
    exact hinv.shows hlog n table id hkept
  · have hnothing : ∀ later : List (ChangeEvent × List Js.Input),
        (∀ delivery ∈ later, Js.Separable delivery.1.table) →
        (Js.deliverAll config replica later).visible table id = none := by
      intro later hlater
      have hboth : Js.deliverAll config replica later =
          Js.deliverAll config start (applied ++ later) :=
        (Run.final_append start applied later).symm
      have hsep : ∀ delivery ∈ applied ++ later, Js.Separable delivery.1.table := by
        intro delivery hdelivery
        rcases List.mem_append.mp hdelivery with hbefore | hafter
        · exact hsepApplied delivery hbefore
        · exact hlater delivery hafter
      rw [Js.World.visible, hboth, Js.getRow_deliverAll _ htable hsep hadmits, habsent]
      rfl
    rw [hnothing thinned hsepThinned, hnothing full hsepFull]

/-- A row is written, written again and deleted while the outbox is pruned. -/
def tidied : List RetentionEvent :=
  let entry (sequence wallMs : Nat) (operation : Op) (row : Option Json) : LogEntry :=
    { tableName := "products", operation := operation, rowId := "pen"
      version := { wallMs := wallMs, counter := 0, actor := actor }
      rowData := row, writeKey := none, sequence := sequence, committedAt := wallMs }
  [.commit (entry 1 5 .upsert (some (.num 2))), .commit (entry 4 6 .upsert (some (.num 3))),
    .prune (some 9), .commit (entry 5 8 .delete none), .prune (some 9)]

/-- Of the three entries the tombstone is left, and a replica that knows the first shows
the same after it as after the other two. -/
theorem tidied_is_invisible :
    let committed := (Run.final retentionStep {} tidied).committed
    let left := (Run.final retentionStep {} tidied).left
    let told (entries : List LogEntry) : List (ChangeEvent × List Js.Input) :=
      entries.map fun entry => (entry.change, [])
    committed.length = 3 ∧ left.length = 1 ∧
    ∀ table id,
      (Js.deliverAll {}
        (Js.deliverAll {} Js.emptyReplica (told (committed.filter (·.sequence ≤ 1))))
        (told (left.filter (1 < ·.sequence)))).visible table id =
      (Js.deliverAll {}
        (Js.deliverAll {} Js.emptyReplica (told (committed.filter (·.sequence ≤ 1))))
        (told (committed.filter (1 < ·.sequence)))).visible table id := by
  intro committed left told
  have htold : ∀ entries, Applies (told entries) entries := by
    intro entries
    simp [Applies, told, Function.comp_def]
  have hlog : OutboxLog committed := ⟨by decide, by decide, by decide⟩
  have hempty : Js.emptyReplica.store.Empty := ⟨fun _ => rfl, rfl⟩
  refine ⟨rfl, rfl, ?_⟩
  exact (pruning_is_invisible {} Js.emptyReplica tidied 1 _ _ _ hempty hlog
    (htold _) (htold _) (htold _)).1

end ZedSync.Postgres
