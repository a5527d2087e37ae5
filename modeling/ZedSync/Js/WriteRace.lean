import ZedSync.DeliveryRaces
import ZedSync.LocalWrites

/-!
One incoming change against one optimistic or local write to the same row.
`applyChange` reads, decides, puts, lists the queue and retires in separate
awaits; `write` puts and then enqueues. The newer write survives as long as it
does not put between the read of the change and its put, or take over the slot
that the change then retires.
-/

namespace ZedSync.Js

open Async

instance (store : Store) : Decidable store.DropsNew :=
  decidable_of_iff
    (store.kind = .memory ∧ store.maxQueueLength = 0 ∧ store.queue.isEmpty = true)
    (by simp [Store.DropsNew])

/-- The action queues into a store that drops the very write it is given. -/
def DropsWrite (action : Action) (world : World) : Prop :=
  action.enqueues.isSome = true ∧ world.store.DropsNew

instance (action : Action) (world : World) : Decidable (DropsWrite action world) :=
  inferInstanceAs (Decidable (_ ∧ _))

/-- No newer write comes between the read of the change, by thread 0, and its put, or the
retirement of the write's slot; and the store drops no write as it is queued. -/
def Uncrossed (incoming : ChangeEvent) (started : Nat) (since : Since) (thread : Nat)
    (action : Action) (_ : Input) (world : World) : Prop :=
  (thread = 0 → (runShelf incoming.table incoming.id started).LeftAlone (incoming.version < ·)
    since thread action world) ∧ ¬ DropsWrite action world

instance (incoming : ChangeEvent) (started : Nat) (since : Since) (thread : Nat)
    (action : Action) (input : Input) (world : World) :
    Decidable (Uncrossed incoming started since thread action input world) :=
  inferInstanceAs (Decidable (_ ∧ _))

namespace WriteRace

variable {incoming : ChangeEvent} {row : Option Json} {merge : Bool} {started : Nat}

/-- What is true of every action of an uncrossed run. -/
def Spared (incoming : ChangeEvent) (started : Nat) (action : Action) (world : World) : Prop :=
  (runShelf incoming.table incoming.id started).Spares (incoming.version < ·) action world ∧
    ¬ DropsWrite action world

/-- Where the write of `row` beside the change is kept. A merge queues what it made of it. -/
abbrev keeper (incoming : ChangeEvent) (row : Option Json) (merge : Bool) :
    Keeper World QueuedWrite where
  logged := World.queued
  inRow := RowHolds
  inQueue := Queued
  asked write := write.table = incoming.table ∧ write.id = incoming.id ∧
    (merge = false → write.payload = row)
  newer write := incoming.version < write.baseVersion

theorem spares_of_same {before after : World} (hstore : after.store = before.store)
    (hqueued : after.queued = before.queued) :
    (keeper incoming row merge).Spares started before after := by
  refine ⟨hqueued, fun write _ _ => ?_⟩
  simp only [RowHolds, Queued, hstore]
  exact ⟨fun h => h, fun _ h => h⟩

/-- A clean put that spares the newer writes. -/
theorem spares_put {action : Action} {stored : StoredRow} {before after : World}
    (hputs : action.puts = some (incoming.table, incoming.id, stored))
    (hclean : stored.rowMeta.dirty = false)
    (hafter : after.store = before.store.setRow incoming.table incoming.id stored)
    (hqueued : after.queued = before.queued)
    (hmeets : Spared incoming started action before) :
    (keeper incoming row merge).Spares started before after := by
  refine ⟨hqueued, fun write hasked hnewer => ⟨fun hholds => ?_, ?_⟩⟩
  · exact absurd hholds (not_rowHolds hmeets.1 hputs hclean hasked.1 hasked.2.1 hnewer)
  · rintro - ⟨entry, hentry, hwrite⟩
    exact ⟨entry, by simpa [hafter] using hentry, hwrite⟩

theorem spares_retire {seq : Nat} {before : World}
    (hmeets : Spared incoming started (.retire seq) before) :
    (keeper incoming row merge).Spares started before
      { before with store := before.store.retire seq } := by
  refine ⟨rfl, fun write hasked hnewer => ⟨fun h => h, ?_⟩⟩
  rintro hlogged ⟨entry, hentry, rfl⟩
  obtain ⟨htable, hid, -⟩ := hasked
  refine ⟨entry, ?_, rfl⟩
  have hother : entry.seq ≠ seq := seq_ne hmeets.1 hentry
    (by simp [QueueEntry.sameRow, htable, hid])
    (List.mem_map_of_mem hlogged) hnewer
  simpa [Store.retire] using ⟨hentry, hother⟩

/-- Whatever the others do, every step of `applyChange` spares a newer write. -/
theorem applyChange_spec (config : ClientConfig) (incoming : ChangeEvent) (world : World) :
    (applyChange config incoming).Sat (Spared incoming started) (fun _ _ => True)
      ((keeper incoming row merge).Spares started) (fun _ _ => True) world := by
  refine Prog.Sat.of_only (fun _ _ _ _ => trivial) ?_ (applyChange_delivers config incoming) trivial
  intro action input world hdelivers _ hmeets
  refine ⟨?_, trivial⟩
  rcases hdelivers with ⟨stored, hputs, -, hclean⟩ | hother
  · cases action <;>
      simp only [Action.puts, Option.some.injEq, Prod.mk.injEq, reduceCtorEq] at hputs
    all_goals
      obtain ⟨rfl, rfl, rfl⟩ := hputs
      exact spares_put rfl hclean rfl rfl hmeets
  · cases action <;>
      first | exact hother.elim | exact Keeper.spares_refl _ | exact spares_retire hmeets

def Acked (outcome : Outcome WriteResult) : Prop :=
  ∃ version, outcome = .ok { status := .acked, version := version }

abbrev WriteSpec (incoming : ChangeEvent) (row : Option Json) (merge : Bool)
    (before : List QueuedWrite)
    (program : Prog session (Outcome WriteResult)) (world : World) : Prop :=
  program.Sat (Spared incoming before.length)
    ((keeper incoming row merge).Spares before.length) (fun _ _ => True)
    (fun outcome => (keeper incoming row merge).Kept (Acked outcome) before) world

theorem ret_spec {before : List QueuedWrite} {write : QueuedWrite} {world : World}
    (h : (keeper incoming row merge).Holding before write world) (outcome : Outcome WriteResult) :
    WriteSpec incoming row merge before (.ret outcome) world :=
  fun _ hspares => (h.spares hspares).kept _

/-- Nothing a sender does touches the store. -/
theorem doSend_spec (config : ClientConfig) (change : ChangeEvent)
    {before : List QueuedWrite} {write : QueuedWrite} {world : World}
    (h : (keeper incoming row merge).Holding before write world) :
    (doSend config change).Sat (Spared incoming before.length)
      ((keeper incoming row merge).Spares before.length) (fun _ _ => True)
      (fun _ => (keeper incoming row merge).Holding before write) world := by
  refine Prog.Sat.of_only (P := (keeper incoming row merge).Holding before write)
    (fun _ _ hheld hspares => hheld.spares hspares) ?_ (doSend_only config change) h
  intro action input world hsends hheld _
  have hsame : (keeper incoming row merge).Spares before.length world
      (perform action input world).2 :=
    spares_of_same (hsends.store input world) (hsends.queued input world)
  exact ⟨trivial, hheld.spares hsame⟩

theorem sendQueued_spec (config : ClientConfig) (seq : Nat) (mode : WriteMode)
    (policy : ErrorPolicy) {before : List QueuedWrite} {write : QueuedWrite} {world : World}
    (h : (keeper incoming row merge).Holding before write world) :
    WriteSpec incoming row merge before (sendQueued config write seq mode policy) world := by
  refine Prog.Sat.bind Keeper.spares_refl (doSend_spec config _ h) fun reply later hheld => ?_
  cases reply with
  | error error => exact ret_spec hheld _
  | ok committedVersion =>
      intro settling _ _ _
      refine ⟨trivial, ?_⟩
      intro settled _ _ _
      refine ⟨trivial, fun _ _ _ _ _ => Or.inl ⟨_, rfl⟩⟩

theorem queueAndSend_spec (config : ClientConfig) (mode : WriteMode) (policy : ErrorPolicy)
    {before : List QueuedWrite} {write : QueuedWrite} {world : World}
    (hlog : world.queued = before) (htable : write.table = incoming.table)
    (hid : write.id = incoming.id) (hpayload : merge = false → write.payload = row)
    (hrow : incoming.version < write.baseVersion → RowHolds write world) :
    WriteSpec incoming row merge before (queueAndSend config write mode policy) world := by
  simp only [WriteSpec, queueAndSend, act, Prog.call_bind, Prog.ret_bind]
  intro queueing hspares hmeets input
  refine ⟨trivial, ?_⟩
  have hkeeps : ¬ queueing.store.DropsNew := fun hdrops => hmeets.2 ⟨rfl, hdrops⟩
  have hlog : queueing.queued = before := hspares.1.trans hlog
  have hheld : (keeper incoming row merge).Holding before write
      (session.perform (.enqueue write) input queueing).2 := by
    refine ⟨?_, ⟨htable, hid, hpayload⟩, fun hnewer => ⟨?_, ?_⟩⟩
    · simp [perform, hlog]
    · have hkept := (hspares.2 write ⟨htable, hid, hpayload⟩ hnewer).1 (hrow hnewer)
      simpa [RowHolds, perform, Store.getRow] using hkept
    · exact Store.enqueue_keeps _ _ hkeeps
  generalize (session.perform (.enqueue write) input queueing).1 = reply
  obtain ⟨seq, dropped⟩ := reply
  dsimp only
  cases dropped.filter fun _ => config.errorPolicy.shouldThrow with
  | some dropped => exact ret_spec hheld _
  | none =>
    dsimp only
    split
    · exact ret_spec hheld _
    · exact sendQueued_spec config _ mode policy hheld

theorem mergedRow_replace (op : Op) (existing : Option StoredRow) (row : Option Json) :
    mergedRow op false existing row = row := by
  unfold mergedRow
  split <;> simp

theorem writeLocally_spec (config : ClientConfig) (write : QueuedWrite) (merge : Bool)
    (mode : WriteMode) (policy : ErrorPolicy) (existing : Option StoredRow)
    {before : List QueuedWrite} {world : World} (hlog : world.queued = before)
    (htable : write.table = incoming.table) (hid : write.id = incoming.id) :
    WriteSpec incoming write.payload merge before
      (writeLocally config write merge mode policy existing) world := by
  have hpayload : merge = false →
      mergedRow write.op merge existing write.payload = write.payload := by
    rintro rfl
    exact mergedRow_replace _ _ _
  simp only [WriteSpec, writeLocally, act, Prog.call_bind, Prog.ret_bind]
  split
  · rename_i hdelete
    intro putting hspares _ _
    refine ⟨trivial, queueAndSend_spec config mode policy (hspares.1.trans hlog) htable hid
      hpayload ?_⟩
    intro _
    refine ⟨_, Store.getRow_setRow_self _ _ _ _, ?_, rfl, rfl⟩
    simp [QueuedWrite.localRow, hdelete]
  · rename_i hupsert
    intro putting hspares _ _
    refine ⟨trivial, queueAndSend_spec config mode policy (hspares.1.trans hlog) htable hid
      hpayload ?_⟩
    intro _
    refine ⟨_, Store.getRow_setRow_self _ _ _ _, ?_, rfl, rfl⟩
    simp [QueuedWrite.localRow, hupsert]

theorem write_spec (config : ClientConfig) (row : Option Json) (options : WriteOptions)
    (hfirst : options.mode.getD config.writeMode ≠ .serverFirst)
    (honly : options.mode.getD config.writeMode ≠ .serverOnly)
    {before : List QueuedWrite} {world : World} (hlog : world.queued = before) :
    WriteSpec incoming row options.merge before
      (write config incoming.table incoming.id row options) world := by
  simp only [WriteSpec, write, requireCapability, writeStamped, hfirst, honly, or_self, if_false,
    act, Prog.call_bind, Prog.ret_bind, Prog.pure_eq]
  intro entering hentering _ input
  have hlog := hentering.1.trans hlog
  refine ⟨trivial, ?_⟩
  cases hrefusal : entering.refusal .canWrite with
  | some phase =>
      simp only [perform, hrefusal]
      exact fun later hspares => Keeper.kept_of_same (hspares.1.trans hlog)
  | none =>
      simp only [perform, hrefusal]
      intro ticking hticking _ input
      refine ⟨trivial, ?_⟩
      intro keying hkeying _ input
      refine ⟨trivial, ?_⟩
      intro reading hreading _ input
      refine ⟨trivial, ?_⟩
      have hlog := hreading.1.trans (hkeying.1.trans (hticking.1.trans hlog))
      exact writeLocally_spec config (QueuedWrite.mk _ _ _ row _ _) options.merge _ _ _ hlog
        rfl rfl

section Stages

/-- The stages of the two threads, at the row of the change. -/
abbrev race (incoming : ChangeEvent) (started : Nat) : Stages session RaceStage :=
  (runShelf incoming.table incoming.id started).race (DeliveryStage.Next incoming)

/-- The actions that neither put, queue nor retire. -/
def Bystands : Action → Prop
  | .requireCapability _ | .tick _ _ | .nextKey | .dateNow | .getRow _ _ | .settleAck _
  | .handOff _ | .handOffEntry _ | .response | .token | .fetch _ => True
  | _ => False

theorem race_bystands {action : Action} (h : Bystands action) {stage : RaceStage}
    (hstage : stage.Writes) (reply : action.Reply) :
    race incoming started stage action reply stage := by
  cases action <;> first
    | exact h.elim
    | exact Shelf.race_passes hstage (fun _ => rfl) rfl rfl

theorem bystands_follows {program : Prog session α} (h : program.Only Bystands)
    {stage : RaceStage} (hstage : stage.Writes) :
    program.Follows (race incoming started) (fun _ after => after = stage) stage := by
  refine Prog.Follows.of_only (P := (· = stage)) ?_ h rfl
  rintro _ action reply rfl hbystands
  exact ⟨_, race_bystands hbystands hstage reply, rfl⟩

/-- One such action, and the rest. -/
theorem call_races {action : Action} {rest : action.Reply → Prog session α} {stage : RaceStage}
    (h : Bystands action) (hstage : stage.Writes)
    (hrest : ∀ reply, (rest reply).Follows (race incoming started) (fun _ _ => True) stage) :
    (Prog.call action rest).Follows (race incoming started) (fun _ _ => True) stage :=
  fun reply => ⟨stage, race_bystands h hstage reply, hrest reply⟩

theorem queueAndSend_races (config : ClientConfig) (write : QueuedWrite) (mode : WriteMode)
    (policy : ErrorPolicy) :
    (queueAndSend config write mode policy).Follows (race incoming started) (fun _ _ => True)
      (.holding write.baseVersion) := by
  simp only [queueAndSend, act, Prog.call_bind, Prog.ret_bind]
  rintro ⟨seq, dropped⟩
  refine ⟨.queued, Shelf.race_queues (fun _ => rfl) rfl rfl, ?_⟩
  dsimp only
  split
  · trivial
  · split
    · trivial
    · refine Prog.Follows.bind (bystands_follows ((doSend_only config _).mono ?_) trivial) ?_
      · intro action hsends
        cases action <;> trivial
      · intro reply after hafter
        obtain rfl := hafter
        cases reply with
        | error error => trivial
        | ok committedVersion =>
            exact call_races trivial trivial fun _ => call_races trivial trivial fun _ => trivial

theorem writeLocally_races (config : ClientConfig) (write : QueuedWrite) (merge : Bool)
    (mode : WriteMode) (policy : ErrorPolicy) (existing : Option StoredRow)
    (htable : write.table = incoming.table) (hid : write.id = incoming.id) :
    (writeLocally config write merge mode policy existing).Follows (race incoming started)
      (fun _ _ => True) .fresh := by
  have hput : ∀ {action : Action} {stored : StoredRow} (reply : action.Reply),
      action.puts = some (write.table, write.id, stored) → stored.rowMeta.dirty = true →
      race incoming started .fresh action reply (.holding stored.rowMeta.version) := by
    intro action stored reply hputs hdirty
    have hput : (runShelf incoming.table incoming.id started).puts action =
        some stored.localRow := rowShelf_puts hputs (by rw [htable, hid])
    cases action <;> cases hputs
    all_goals exact Shelf.race_puts (fun _ => rfl) hput hdirty rfl
  unfold writeLocally
  dsimp only
  split
  · exact fun reply => ⟨_, hput reply rfl rfl, queueAndSend_races config _ mode policy⟩
  · exact fun reply => ⟨_, hput reply rfl rfl, queueAndSend_races config _ mode policy⟩

theorem write_races (config : ClientConfig) (row : Option Json) (options : WriteOptions)
    (hfirst : options.mode.getD config.writeMode ≠ .serverFirst)
    (honly : options.mode.getD config.writeMode ≠ .serverOnly) :
    (Call.program config (.write incoming.table incoming.id row options)).Follows
      (race incoming started) (fun _ _ => True) .fresh := by
  refine Prog.Follows.bind (E := fun _ _ => True) ?_ fun _ _ _ => trivial
  refine call_races trivial trivial fun refusal => ?_
  cases refusal with
  | some phase => trivial
  | none =>
      refine call_races trivial trivial fun stamp => call_races trivial trivial fun key => ?_
      simp only [writeStamped, hfirst, honly, or_self, if_false]
      exact call_races trivial trivial fun existing =>
        writeLocally_races config _ _ _ _ existing rfl rfl

theorem applyChange_races (config : ClientConfig) :
    (Call.program config (.applyChange incoming)).Follows (race incoming started)
      (fun _ _ => True) (.delivering .entering) := by
  refine Prog.Follows.bind (E := fun _ _ => True) ?_ fun _ _ _ => trivial
  refine (DeliveryStage.leads_applyChange config incoming).embed RaceStage.delivering ?_
    fun _ _ h => h
  intro stage action reply after hnext
  refine ⟨?_, after, hnext, rfl⟩
  cases action <;> first | rfl | cases stage <;> exact hnext.elim

end Stages

end WriteRace

open WriteRace

/-- One incoming change against one optimistic or local write to its row. In any
interleaving in which the write does not cross the change, a write that is newer than the
change ends in place, its payload in the row and its entry in the queue, unless the write
itself was acknowledged. -/
theorem newer_write_kept (config : ClientConfig) (incoming : ChangeEvent)
    (row : Option Json) (options : WriteOptions) (world : World)
    (schedule : List (Pool.Turn session))
    (hfirst : options.mode.getD config.writeMode ≠ .serverFirst)
    (honly : options.mode.getD config.writeMode ≠ .serverOnly) :
    let pool : Pool session (Outcome CallResult) :=
      { world := world,
        threads := [Call.program config (.applyChange incoming),
          Call.program config (.write incoming.table incoming.id row options)] }
    let shelf := runShelf incoming.table incoming.id world.queued.length
    let final := pool.run schedule
    pool.Watched shelf.mark (Uncrossed incoming world.queued.length) schedule Since.start →
      final.Done →
      ∀ write, final.world.queued = world.queued ++ [write] →
        incoming.version < write.baseVersion →
        (∃ version, final.threads[1]? =
          some (.ret (.ok (.wrote { status := .acked, version := version })))) ∨
        (InPlace write final.world ∧ write.table = incoming.table ∧ write.id = incoming.id ∧
          (options.merge = false → write.payload = row)) := by
  intro pool shelf final hwatched hdone write hlogged hnewer
  let keep := keeper incoming row options.merge
  have hmeets : pool.Meets (Spared incoming world.queued.length) schedule := by
    have hspares := Shelf.race_spares shelf (shelf_next _)
      (by simp [shelf, runShelf, rowShelf, Rows.shelf])
      (applyChange_races config) (write_races config row options hfirst honly)
      (hwatched.mono fun _ _ _ _ _ huncrossed => huncrossed.1)
    have hroom : pool.Heeds (fun action _ world => ¬ DropsWrite action world) schedule :=
      (Pool.watched_iff_along shelf.mark (fun _ action _ world => ¬ DropsWrite action world) pool
        schedule Since.start).mp (hwatched.mono fun _ _ _ _ _ huncrossed => huncrossed.2)
    exact hspares.and hroom
  have hchange : (Call.program config (.applyChange incoming)).Sat
      (Spared incoming world.queued.length) (fun _ _ => True)
      (keep.Spares world.queued.length) (fun _ _ => True) world :=
    Prog.Sat.bind (fun _ => trivial) (applyChange_spec config incoming world)
      fun _ _ _ _ _ => trivial
  have hwrite : (Call.program config (.write incoming.table incoming.id row options)).Sat
      (Spared incoming world.queued.length) (keep.Spares world.queued.length) (fun _ _ => True)
      (fun outcome later => ∃ result, outcome = result.map .wrote ∧
        keep.Kept (Acked result) world.queued later) world := by
    apply Prog.Sat.bind Keeper.spares_refl (write_spec config row options hfirst honly rfl)
    intro result later hkept final hspares
    exact ⟨result, rfl, hkept.spares hspares⟩
  obtain ⟨changed, wrote, hthreads, _, result, rfl, hkept⟩ :=
    Pool.sat_pair (R := fun _ _ => True) (S := keep.Spares world.queued.length)
      (fun _ => trivial) (fun _ _ => trivial) Keeper.spares_refl
      (fun hab hbc => Keeper.spares_trans hab hbc) world _ _ schedule hchange hwrite hmeets hdone
  rcases hkept write hlogged hnewer with ⟨version, rfl⟩ | hplace
  · exact Or.inl ⟨version, by rw [hthreads]; rfl⟩
  · exact Or.inr hplace

end ZedSync.Js
