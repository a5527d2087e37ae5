import ZedSync.DeliveryRaces
import ZedSync.LocalWrites

/-!
One incoming change against one optimistic or local write to the same row, in
the Dart client. The queue has an entry for each write, so a retirement hits
the newer write by its key alone.
-/

namespace ZedSync.Dart

open Async

/-- No newer write comes between the read of the change, by thread 0, and its put, or the
retirement of an entry under the write's key. -/
def Uncrossed (incoming : ChangeEvent) (started : Nat) (since : Since) (thread : Nat)
    (action : Action) (_ : Input) (world : World) : Prop :=
  thread = 0 → (runShelf incoming.table incoming.id started).LeftAlone (incoming.version < ·)
    since thread action world

instance (incoming : ChangeEvent) (started : Nat) (since : Since) (thread : Nat)
    (action : Action) (input : Input) (world : World) :
    Decidable (Uncrossed incoming started since thread action input world) :=
  inferInstanceAs (Decidable (_ → _))

namespace WriteRace

variable {incoming : ChangeEvent} {row : Option Json} {started : Nat}

/-- What is true of every action of an uncrossed run. -/
def Spared (incoming : ChangeEvent) (started : Nat) (action : Action) (world : World) : Prop :=
  (runShelf incoming.table incoming.id started).Spares (incoming.version < ·) action world

/-- Where the write of `row` beside the change is kept. -/
abbrev keeper (incoming : ChangeEvent) (row : Option Json) : Keeper World QueuedWrite where
  logged := World.queued
  inRow := RowHolds
  inQueue write world := write ∈ world.storage.queue
  asked write := write.table = incoming.table ∧ write.id = incoming.id ∧ write.payload = row
  newer write := incoming.version < write.baseVersion

theorem spares_put {stored : StoredRow} {before : World} (hclean : stored.dirty = false)
    (hmeets : Spared incoming started (.putRow incoming.table incoming.id stored) before) :
    (keeper incoming row).Spares started before
      (before.putRow incoming.table incoming.id stored) := by
  refine ⟨rfl, fun write hasked hnewer => ⟨fun hholds => ?_, fun _ h => h⟩⟩
  exact absurd hholds (not_rowHolds hmeets rfl hclean hasked.1 hasked.2.1 hnewer)

theorem spares_retire {retired : QueuedWrite} {before : World}
    (hmeets : Spared incoming started (.retire retired) before) :
    (keeper incoming row).Spares started before
      { before with storage := before.storage.retire retired } := by
  refine ⟨rfl, fun write hasked hnewer => ⟨fun h => h, fun hlogged hentry => ?_⟩⟩
  obtain ⟨htable, hid, -⟩ := hasked
  have hother : write.key ≠ retired.key := key_ne hmeets hentry
    ((sameRow_iff _ _ _).mpr ⟨htable, hid⟩) (List.mem_map_of_mem hlogged) hnewer
  simpa [MemoryStorage.retire] using ⟨hentry, hother⟩

/-- Whatever the others do, every step of `applyChange` spares a newer write. -/
theorem applyChange_spec (config : ClientConfig) (incoming : ChangeEvent) (world : World) :
    (applyChange config incoming).Sat (Spared incoming started) (fun _ _ => True)
      ((keeper incoming row).Spares started) (fun _ _ => True) world := by
  refine Prog.Sat.of_only (fun _ _ _ _ => trivial) ?_ (applyChange_only config incoming) trivial
  intro action input world hdelivers _ hmeets
  refine ⟨?_, trivial⟩
  cases action with
  | putRow table id stored =>
      obtain ⟨rfl, rfl, -, hclean⟩ := hdelivers
      exact spares_put hclean hmeets
  | retire retired => exact spares_retire hmeets
  | requireCapability | observe | getRow | now | pending => exact Keeper.spares_refl _
  | _ => exact hdelivers.elim

def Acked (outcome : Outcome WriteResult) : Prop :=
  ∃ version, outcome = .ok { status := .acked, version := version }

abbrev WriteSpec (incoming : ChangeEvent) (row : Option Json) (before : List QueuedWrite)
    (program : Prog device (Outcome WriteResult)) (world : World) : Prop :=
  program.Sat (Spared incoming before.length) ((keeper incoming row).Spares before.length)
    (fun _ _ => True) (fun outcome => (keeper incoming row).Kept (Acked outcome) before) world

theorem ret_spec {before : List QueuedWrite} {write : QueuedWrite} {world : World}
    (h : (keeper incoming row).Holding before write world) (outcome : Outcome WriteResult) :
    WriteSpec incoming row before (.ret outcome) world :=
  fun _ hspares => (h.spares hspares).kept _

theorem sendQueued_spec (config : ClientConfig) (mode : WriteMode) (policy : ErrorPolicy)
    {before : List QueuedWrite} {write : QueuedWrite} {world : World}
    (h : (keeper incoming row).Holding before write world) :
    WriteSpec incoming row before (sendQueued config write mode policy) world := by
  simp only [WriteSpec, sendQueued, doSend]
  split
  · intro sending hspares _ _
    refine ⟨trivial, ?_⟩
    intro awaiting hawaiting _ input
    refine ⟨trivial, ?_⟩
    have hheld := (h.spares hspares).spares hawaiting
    cases hresponse : input.response with
    | failed message =>
        simp only [perform, hresponse]
        exact ret_spec hheld _
    | committed version =>
        simp only [perform, hresponse]
        intro settling _ _ _
        exact ⟨trivial, fun _ _ _ _ _ => Or.inl ⟨_, rfl⟩⟩
  · exact ret_spec h _

theorem writeLocally_spec (config : ClientConfig) (write : QueuedWrite) (mode : WriteMode)
    (policy : ErrorPolicy) (existing : Option StoredRow) {before : List QueuedWrite}
    {world : World} (hlog : world.queued = before) (htable : write.table = incoming.table)
    (hid : write.id = incoming.id) :
    WriteSpec incoming write.payload before
      (writeLocally config write mode policy existing) world := by
  intro putting hputting _ _
  refine ⟨trivial, ?_⟩
  intro queueing hqueueing _ _
  refine ⟨trivial, ?_⟩
  have hlog : queueing.queued = before := hqueueing.1.trans (hputting.1.trans hlog)
  have hrow : incoming.version < write.baseVersion → RowHolds write queueing := by
    intro hnewer
    apply (hqueueing.2 write ⟨htable, hid, rfl⟩ hnewer).1
    exact ⟨_, MemoryStorage.getRow_putRow_self _ _ _ _, rfl, rfl, rfl⟩
  have hheld : (keeper incoming write.payload).Holding before write
      (perform (.enqueue write) {} queueing).2 := by
    refine ⟨?_, ⟨htable, hid, rfl⟩, fun hnewer => ⟨?_, ?_⟩⟩
    · simp [perform, hlog]
    · simpa [RowHolds, perform, MemoryStorage.getRow] using hrow hnewer
    · simp [perform, MemoryStorage.enqueue]
  dsimp only
  split
  · exact ret_spec hheld _
  · exact sendQueued_spec config mode policy hheld

theorem write_spec (config : ClientConfig) (row : Option Json) (options : WriteOptions)
    (hfirst : options.mode.getD config.writeMode ≠ .serverFirst)
    (honly : options.mode.getD config.writeMode ≠ .serverOnly)
    {before : List QueuedWrite} {world : World} (hlog : world.queued = before) :
    WriteSpec incoming row before (write config incoming.table incoming.id row options)
      world := by
  simp only [WriteSpec, write, requireCapability, writeStamped, hfirst, honly, or_self, if_false,
    act, Prog.call_bind, Prog.ret_bind, Prog.pure_eq]
  intro entering hentering _ input
  have hlog := hentering.1.trans hlog
  refine ⟨trivial, ?_⟩
  cases hrefusal : entering.refusal .canWrite with
  | some phase =>
      simp only [perform, hrefusal]
      exact fun later hspares => Keeper.kept_of_same (hspares.1.trans hlog)
  | none =>
      simp only [perform, hrefusal]
      intro ticking hticking _ input
      refine ⟨trivial, ?_⟩
      intro keying hkeying _ input
      refine ⟨trivial, ?_⟩
      intro reading hreading _ input
      refine ⟨trivial, ?_⟩
      have hlog := hreading.1.trans (hkeying.1.trans (hticking.1.trans hlog))
      exact writeLocally_spec config (QueuedWrite.mk _ _ _ row _ _) _ _ _ hlog rfl rfl

section Stages

/-- The stages of the two threads, at the row of the change. -/
abbrev race (incoming : ChangeEvent) (started : Nat) : Stages device RaceStage :=
  (runShelf incoming.table incoming.id started).race (DeliveryStage.Next incoming)

/-- The actions that neither put, queue nor retire. -/
def Bystands : Action → Prop
  | .requireCapability _ | .tick _ _ | .nextKey | .now | .getRow _ _ | .settleAck _ _ | .send _
  | .response => True
  | _ => False

theorem race_bystands {action : Action} (h : Bystands action) {stage : RaceStage}
    (hstage : stage.Writes) (reply : action.Reply) :
    race incoming started stage action reply stage := by
  cases action <;> first
    | exact h.elim
    | exact Shelf.race_passes hstage (fun _ => rfl) rfl rfl

/-- One such action, and the rest. -/
theorem call_races {action : Action} {rest : action.Reply → Prog device α} {stage : RaceStage}
    (h : Bystands action) (hstage : stage.Writes)
    (hrest : ∀ reply, (rest reply).Follows (race incoming started) (fun _ _ => True) stage) :
    (Prog.call action rest).Follows (race incoming started) (fun _ _ => True) stage :=
  fun reply => ⟨stage, race_bystands h hstage reply, hrest reply⟩

theorem sendQueued_races (config : ClientConfig) (queued : QueuedWrite) (mode : WriteMode)
    (policy : ErrorPolicy) :
    (sendQueued config queued mode policy).Follows (race incoming started) (fun _ _ => True)
      .queued := by
  unfold sendQueued doSend
  split
  · refine call_races trivial trivial fun _ => call_races trivial trivial fun response => ?_
    cases response with
    | failed message => trivial
    | committed version => exact call_races trivial trivial fun _ => trivial
  · trivial

theorem writeLocally_races (config : ClientConfig) (write : QueuedWrite) (mode : WriteMode)
    (policy : ErrorPolicy) (existing : Option StoredRow)
    (htable : write.table = incoming.table) (hid : write.id = incoming.id) :
    (writeLocally config write mode policy existing).Follows (race incoming started)
      (fun _ _ => True) .fresh := by
  intro _
  have hputs : ∀ stored, (runShelf incoming.table incoming.id started).puts
      (.putRow write.table write.id stored) = some stored.localRow :=
    fun stored => rowShelf_puts rfl (by rw [htable, hid])
  refine ⟨_, Shelf.race_puts (fun _ => rfl) (hputs _) rfl rfl, fun _ =>
    ⟨.queued, Shelf.race_queues (fun _ => rfl) rfl rfl, ?_⟩⟩
  dsimp only
  split
  · trivial
  · exact sendQueued_races config write mode policy

theorem write_races (config : ClientConfig) (row : Option Json) (options : WriteOptions)
    (hfirst : options.mode.getD config.writeMode ≠ .serverFirst)
    (honly : options.mode.getD config.writeMode ≠ .serverOnly) :
    (Call.program config (.write incoming.table incoming.id row options)).Follows
      (race incoming started) (fun _ _ => True) .fresh := by
  refine Prog.Follows.bind (E := fun _ _ => True) ?_ fun _ _ _ => trivial
  refine call_races trivial trivial fun refusal => ?_
  cases refusal with
  | some phase => trivial
  | none =>
      refine call_races trivial trivial fun stamp => call_races trivial trivial fun key => ?_
      simp only [writeStamped, hfirst, honly, or_self, if_false]
      exact call_races trivial trivial fun existing =>
        writeLocally_races config _ _ _ existing rfl rfl

theorem applyChange_races (config : ClientConfig) :
    (Call.program config (.applyChange incoming)).Follows (race incoming started)
      (fun _ _ => True) (.delivering .entering) := by
  refine Prog.Follows.bind (E := fun _ _ => True) ?_ fun _ _ _ => trivial
  refine (DeliveryStage.leads_applyChange config incoming).embed RaceStage.delivering ?_
    fun _ _ h => h
  intro stage action reply after hnext
  refine ⟨?_, after, hnext, rfl⟩
  cases action <;> first | rfl | cases stage <;> exact hnext.elim

end Stages

end WriteRace

open WriteRace

/-- One incoming change against one optimistic or local write to its row. In any
interleaving in which the write does not cross the change, a write that is newer than the
change ends in place, unless the write itself was acknowledged. -/
theorem newer_write_kept (config : ClientConfig) (incoming : ChangeEvent)
    (row : Option Json) (options : WriteOptions) (world : World)
    (schedule : List (Pool.Turn device))
    (hfirst : options.mode.getD config.writeMode ≠ .serverFirst)
    (honly : options.mode.getD config.writeMode ≠ .serverOnly) :
    let pool : Pool device (Outcome CallResult) :=
      { world := world,
        threads := [Call.program config (.applyChange incoming),
          Call.program config (.write incoming.table incoming.id row options)] }
    let shelf := runShelf incoming.table incoming.id world.queued.length
    let final := pool.run schedule
    pool.Watched shelf.mark (Uncrossed incoming world.queued.length) schedule Since.start →
      final.Done →
      ∀ write, final.world.queued = world.queued ++ [write] →
        incoming.version < write.baseVersion →
        (∃ version, final.threads[1]? =
          some (.ret (.ok (.wrote { status := .acked, version := version })))) ∨
        (InPlace write final.world ∧ write.table = incoming.table ∧ write.id = incoming.id ∧
          write.payload = row) := by
  intro pool shelf final hwatched hdone write hlogged hnewer
  let keep := keeper incoming row
  have hmeets : pool.Meets (Spared incoming world.queued.length) schedule :=
    Shelf.race_spares shelf (shelf_next _) (by simp [shelf, runShelf, rowShelf, Rows.shelf])
      (applyChange_races config) (write_races config row options hfirst honly) hwatched
  have hchange : (Call.program config (.applyChange incoming)).Sat
      (Spared incoming world.queued.length) (fun _ _ => True)
      (keep.Spares world.queued.length) (fun _ _ => True) world :=
    Prog.Sat.bind (fun _ => trivial) (applyChange_spec config incoming world)
      fun _ _ _ _ _ => trivial
  have hwrite : (Call.program config (.write incoming.table incoming.id row options)).Sat
      (Spared incoming world.queued.length) (keep.Spares world.queued.length) (fun _ _ => True)
      (fun outcome later => ∃ result, outcome = result.map .wrote ∧
        keep.Kept (Acked result) world.queued later) world := by
    apply Prog.Sat.bind Keeper.spares_refl (write_spec config row options hfirst honly rfl)
    intro result later hkept final hspares
    exact ⟨result, rfl, hkept.spares hspares⟩
  obtain ⟨changed, wrote, hthreads, _, result, rfl, hkept⟩ :=
    Pool.sat_pair (R := fun _ _ => True) (S := keep.Spares world.queued.length)
      (fun _ => trivial) (fun _ _ => trivial) Keeper.spares_refl
      (fun hab hbc => Keeper.spares_trans hab hbc) world _ _ schedule hchange hwrite hmeets hdone
  rcases hkept write hlogged hnewer with ⟨version, rfl⟩ | hplace
  · exact Or.inl ⟨version, by rw [hthreads]; rfl⟩
  · exact Or.inr hplace

end ZedSync.Dart
