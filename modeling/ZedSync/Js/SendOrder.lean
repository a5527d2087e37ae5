import ZedSync.DeliveryStages
import ZedSync.Js.Slots

/-!
The order in which one client hands the writes of a row to `send`, for any
number of flushes and queued writes running at once. A write hands over the
change it stamped some awaits before, and a flush walks a snapshot of the
queue: what is handed over in between can overtake either. Nothing else can,
since stamps rise and a slot holds the write of its row that was queued last;
but for writes queued out of the order of their stamps, and for those queued
before the run, which the clock may never have met.
-/

namespace ZedSync.Js

open Async

/-- The change an action hands to `send`. -/
def Action.handsOff (world : World) : Action → Option ChangeEvent
  | .handOff change => some change
  | .handOffEntry entry => some (world.store.deref entry).change
  | _ => none

/-- The action hands over an entry of a snapshot of the queue. -/
def Action.ofSnapshot : Action → Bool
  | .handOffEntry _ => true
  | _ => false

/-- The other change is a newer one to the same row. -/
def Behind (change other : ChangeEvent) : Prop :=
  change.table = other.table ∧ change.id = other.id ∧ change.version < other.version

instance (change other : ChangeEvent) : Decidable (Behind change other) :=
  inferInstanceAs (Decidable (_ ∧ _ ∧ _))

/-- For each row, the changes handed to `send` are in non-decreasing order. -/
def SentInOrder (world : World) : Prop :=
  world.handed.Pairwise fun earlier later =>
    earlier.table = later.table → earlier.id = later.id → earlier.version ≤ later.version

instance (world : World) : Decidable (SentInOrder world) :=
  inferInstanceAs (Decidable (world.handed.Pairwise _))

/-- The versions of the writes queued for a row, in the order of their enqueues. -/
def World.queuedVersions (world : World) (table id : String) : List Hlc :=
  (world.queued.filter fun write => write.table = table ∧ write.id = id).map (·.baseVersion)

/-- What is handed over after a write took its stamp, or a flush its snapshot. -/
def sendWindow : Window session ChangeEvent where
  opens
    | .tick _ _ | .pending => true
    | _ => false
  brings action _ world := (action.handsOff world).toList

/-- The newer version was put into the queue ahead of what the action hands over:
for a write, before the run; for an entry of a snapshot, before the entry. -/
def Action.Trails (start world : World) (change : ChangeEvent) (newer : Hlc) (action : Action) :
    Prop :=
  if action.ofSnapshot then
    [newer, change.version].Sublist (world.queuedVersions change.table change.id)
  else newer ∈ start.queuedVersions change.table change.id

/-- What the action hands over is behind a newer change of the row that was
handed over in its window, or that its window could not show it. -/
def Overtaken (start : World) (since : List ChangeEvent) (action : Action) (world : World) :
    Prop :=
  ∃ change, action.handsOff world = some change ∧
    ((∃ newer ∈ since, Behind change newer) ∨
      ∃ newer ∈ world.handed, Behind change newer ∧
        action.Trails start world change newer.version)

instance (start world : World) (change : ChangeEvent) (newer : Hlc) (action : Action) :
    Decidable (action.Trails start world change newer) :=
  inferInstanceAs (Decidable (ite _ _ _))

instance (start : World) (since : List ChangeEvent) (action : Action) (world : World) :
    Decidable (Overtaken start since action world) :=
  decidable_of_iff (∃ change ∈ (action.handsOff world).toList,
    (∃ newer ∈ since, Behind change newer) ∨
      ∃ newer ∈ world.handed, Behind change newer ∧
        action.Trails start world change newer.version) (by simp [Overtaken])

/-- The calls whose writes are queued before they are sent. -/
def Call.Queues (config : ClientConfig) : Call → Prop
  | .write _ _ _ options =>
      options.mode.getD config.writeMode ≠ .serverFirst ∧
        options.mode.getD config.writeMode ≠ .serverOnly
  | .flushQueue _ => True
  | .applyChange _ | .hydrate _ | .newClient _ => False

namespace Store

/-- The entry objects of a store: those queued, and those that left the queue. An
object that left shares its number with none that is queued. -/
structure Objects (store : Store) : Prop where
  slots : store.Slots
  apart : ∀ entry ∈ store.queue, ∀ gone ∈ store.detached, gone.seq ≠ entry.seq
  bounded : ∀ gone ∈ store.detached, gone.seq ≤ store.seq

variable {store after : Store} {entry current : QueueEntry} {write : QueuedWrite}

/-- A number names one object, while it is queued. -/
theorem Objects.eq_of_seq (h : store.Objects) (hentry : entry ∈ store.queue)
    (hcurrent : store.Holds current) (hseq : current.seq = entry.seq) : current = entry := by
  rcases hcurrent with hqueued | hgone
  · exact h.slots.eq_of_seq hqueued hentry hseq
  · exact absurd hseq (h.apart entry hentry current hgone)

/-- An entry leaves the queue. -/
theorem Objects.erase (h : store.Objects) {index : Nat} (hslot : store.queue[index]? = some entry)
    (hqueue : after.queue = store.queue.eraseIdx index)
    (hdetached : after.detached = entry :: store.detached) (hseq : after.seq = store.seq) :
    after.Objects := by
  have hentry : entry ∈ store.queue := List.mem_of_getElem? hslot
  refine ⟨h.slots.of_sublist (hqueue ▸ List.eraseIdx_sublist _ _) hseq, ?_, ?_⟩
  · intro kept hkept gone hgone hsame
    rw [hqueue, h.slots.mem_eraseIdx hslot] at hkept
    rw [hdetached] at hgone
    rcases List.mem_cons.mp hgone with rfl | hgone
    · exact hkept.2 (h.slots.eq_of_seq hkept.1 hentry hsame.symm)
    · exact h.apart kept hkept.1 gone hgone hsame
  · intro gone hgone
    rw [hdetached] at hgone
    rw [hseq]
    rcases List.mem_cons.mp hgone with rfl | hgone
    · exact h.slots.bounded _ hentry
    · exact h.bounded gone hgone

theorem Objects.of_same (h : store.Objects) (hqueue : after.queue = store.queue)
    (hdetached : after.detached = store.detached) (hseq : after.seq = store.seq) :
    after.Objects := by
  refine ⟨h.slots.of_same hqueue hseq, ?_, ?_⟩
  · rw [hqueue, hdetached]
    exact h.apart
  · rw [hdetached, hseq]
    exact h.bounded

theorem Objects.settleAck (h : store.Objects) (options : SettleOptions) :
    (store.settleAck options).2.Objects := by
  obtain ⟨hseq, ⟨hqueue, hdetached⟩ | ⟨index, entry, hslot, hqueue, hdetached⟩⟩ :=
    store.settleAck_queue options
  · exact h.of_same hqueue hdetached hseq
  · exact h.erase hslot hqueue hdetached hseq

/-- What a store over its cap drops is no longer queued. -/
theorem addEntry_apart {added dropped : QueueEntry}
    (hdistinct : ((store.queue ++ [added]).map (·.seq)).Nodup)
    (hdropped : (store.addEntry added).2 = some dropped) :
    ∀ entry ∈ (store.addEntry added).1, dropped.seq ≠ entry.seq := by
  unfold addEntry at hdropped ⊢
  split at hdropped
  · dsimp only at hdropped ⊢
    split at hdropped
    · rename_i hover
      rw [if_pos hover]
      obtain ⟨rest, hpushed⟩ := List.head?_eq_some_iff.mp hdropped
      rw [hpushed] at hdistinct ⊢
      intro entry hentry hseq
      rw [List.map_cons, List.nodup_cons] at hdistinct
      exact hdistinct.1 (hseq ▸ List.mem_map_of_mem hentry)
    · cases hdropped
  · cases hdropped
  · rename_i first rest _ hqueue
    dsimp only at hdropped ⊢
    split at hdropped
    · rename_i hover
      rw [if_pos hover]
      obtain rfl := Option.some.inj hdropped
      intro entry hentry hseq
      rcases List.mem_append.mp hentry with hkept | hadded
      · exact of_decide_eq_true (List.mem_filter.mp hkept).2 hseq.symm
      · obtain rfl := List.mem_singleton.mp hadded
        rw [hqueue, List.map_append, List.nodup_append] at hdistinct
        exact hdistinct.2.2 _ (List.mem_map_of_mem (lowestSeq_mem first rest)) _ (by simp) hseq
    · cases hdropped

theorem addEntry_sublist (store : Store) (added : QueueEntry) :
    (store.addEntry added).1.Sublist (store.queue ++ [added]) := by
  unfold addEntry
  split
  · dsimp only
    split
    · exact List.tail_sublist _
    · exact List.Sublist.refl _
  · rename_i hqueue
    simp [hqueue]
  · rename_i hqueue
    dsimp only
    rw [hqueue]
    split
    · exact List.filter_sublist.append (List.Sublist.refl _)
    · exact List.Sublist.refl _

/-- An enqueue replaces the object of the row's slot, or adds a new one. What is
queued afterwards is the write, or an entry of another row that was queued. -/
theorem Objects.enqueue (h : store.Objects) (write : QueuedWrite) :
    (store.enqueue write).2.Objects ∧ ∀ entry ∈ (store.enqueue write).2.queue,
      entry.toQueuedWrite = write ∨
        entry ∈ store.queue ∧ entry.sameRow write.table write.id = false := by
  cases hindex : store.queue.findIdx? (QueueEntry.sameRow · write.table write.id) with
  | some index =>
      obtain ⟨hlt, hsameRow, -⟩ := List.findIdx?_eq_some_iff_getElem.mp hindex
      have hold : store.queue[index]? = some store.queue[index] := List.getElem?_eq_getElem hlt
      have hafter := enqueue_coalesced hindex hold
      have hroom : (store.enqueue write).1.2 = none := by rw [hafter]
      obtain ⟨hslots, htakes⟩ := h.slots.enqueue hroom
      refine ⟨⟨hslots, ?_, ?_⟩, fun entry hentry => ?_⟩
      · intro entry hentry gone hgone
        rw [hafter] at hgone
        rcases (htakes entry).mp hentry with rfl | ⟨hentry, -⟩
        · rw [hafter]
          exact h.apart _ (List.mem_of_getElem? hold) gone hgone
        · exact h.apart entry hentry gone hgone
      · rw [hafter]
        exact h.bounded
      · exact ((htakes entry).mp hentry).imp_left (congrArg QueueEntry.toQueuedWrite)
  | none =>
      have hother : ∀ entry ∈ store.queue, entry.sameRow write.table write.id = false := by
        simpa using List.findIdx?_eq_none_iff.mp hindex
      obtain ⟨hadded, htakes⟩ := h.slots.add hother
      have hsub := store.addEntry_sublist (write.atSeq (store.seq + 1))
      simp only [Store.enqueue, hindex]
      refine ⟨⟨hadded.of_sublist hsub rfl, ?_, ?_⟩, fun entry hentry => ?_⟩
      · intro entry hentry gone hgone
        rcases List.mem_append.mp hgone with hdropped | hgone
        · exact addEntry_apart hadded.distinct (Option.mem_toList.mp hdropped) entry hentry
        · rcases (htakes entry).mp (hsub.subset hentry) with rfl | ⟨hold, -⟩
          · exact (Nat.lt_succ_of_le (h.bounded gone hgone)).ne
          · exact h.apart entry hold gone hgone
      · intro gone hgone
        rcases List.mem_append.mp hgone with hdropped | hgone
        · have hheld := store.addEntry_subset _ gone (Or.inr hdropped)
          exact hadded.bounded gone (List.mem_append.mpr (hheld.imp_right List.mem_singleton.mpr))
        · exact Nat.le_succ_of_le (h.bounded gone hgone)
      · exact ((htakes entry).mp (hsub.subset hentry)).imp_left (congrArg QueueEntry.toQueuedWrite)

end Store

namespace SendOrder

/-- Where a thread stands: it holds a stamp, the write it queued under that stamp,
or the snapshot it walks. -/
inductive SendStage where
  | plain
  | stamped (stamp : Hlc)
  | sending (write : QueuedWrite)
  | listed (entries : List QueueEntry)

/-- The actions that neither stamp, list, queue nor hand over. -/
def Quiet : Action → Prop
  | .requireCapability _ | .nextKey | .dateNow | .getRow _ _ | .putRow _ _ _ _
  | .removeRow _ _ _ | .settleAck _ | .settleEntry _ _ | .response | .token | .fetch _ => True
  | _ => False

/-- Where an action and its reply lead. -/
def Next : SendStage → (action : Action) → action.Reply → SendStage → Prop
  | _, .tick _ _, stamp, after => after = .stamped stamp
  | _, .pending, entries, after => after = .listed entries
  | .stamped stamp, .enqueue write, _, after =>
      write.baseVersion = stamp ∧ after = .sending write
  | .sending write, .handOff change, _, after =>
      change = (write.atSeq 0).change ∧ after = .sending write
  | .listed entries, .handOffEntry entry, _, after =>
      entry ∈ entries ∧ after = .listed entries
  | stage, action, _, after => Quiet action ∧ after = stage

/-- The program goes through the stages from this one, and ends at it or beyond. -/
abbrev Leads (stage : SendStage) (program : Prog session α)
    (E : α → SendStage → Prop := fun _ _ => True) : Prop :=
  program.Follows Next E stage

theorem next_quiet {action : Action} (h : Quiet action) (stage : SendStage)
    (reply : action.Reply) : Next stage action reply stage := by
  cases action <;> first | exact h.elim | exact ⟨trivial, rfl⟩

/-- The actions that some stage allows. -/
def Staged : Action → Prop
  | .tick _ _ | .pending | .enqueue _ | .handOff _ | .handOffEntry _ => True
  | action => Quiet action

theorem next_staged {stage after : SendStage} {action : Action} {reply : action.Reply}
    (h : Next stage action reply after) : Staged action := by
  cases action <;> first | trivial | exact absurd h (by simp [Next, Quiet])

theorem leads_past {action : Action} {rest : action.Reply → Prog session α} {stage : SendStage}
    {E : α → SendStage → Prop} (h : Quiet action) (hrest : ∀ reply, Leads stage (rest reply) E) :
    Leads stage (.call action rest) E :=
  fun reply => ⟨stage, next_quiet h stage reply, hrest reply⟩

theorem leads_quiet {program : Prog session α} (h : program.Only Quiet) (stage : SendStage) :
    Leads stage program fun _ after => after = stage :=
  Prog.Follows.of_only (P := (· = stage))
    (fun stage _ reply hstage hquiet => ⟨stage, next_quiet hquiet stage reply, hstage⟩) h rfl

theorem transmits_quiet {action : Action} (h : action.Transmits) : Quiet action := by
  cases action <;> trivial

theorem leads_doSend (config : ClientConfig) (write : QueuedWrite) (seq : Nat) :
    Leads (.sending write) (doSend config (write.atSeq seq).change) fun _ after =>
      after = .sending write := by
  unfold doSend
  split
  · rfl
  · exact fun _ => ⟨_, ⟨rfl, rfl⟩, leads_quiet
      ((transmit_only _ _).mono fun _ => transmits_quiet) _⟩

theorem leads_sendQueued (config : ClientConfig) (write : QueuedWrite) (seq : Nat)
    (mode : WriteMode) (policy : ErrorPolicy) :
    Leads (.sending write) (sendQueued config write seq mode policy) := by
  refine (leads_doSend config write seq).bind fun reply after hafter => ?_
  obtain rfl := hafter
  cases reply with
  | error error => trivial
  | ok committedVersion =>
      exact leads_past trivial fun _ => leads_past trivial fun _ => trivial

theorem leads_queueAndSend (config : ClientConfig) (write : QueuedWrite) (mode : WriteMode)
    (policy : ErrorPolicy) :
    Leads (.stamped write.baseVersion) (queueAndSend config write mode policy) := by
  simp only [queueAndSend, act, Prog.call_bind, Prog.ret_bind]
  rintro ⟨seq, dropped⟩
  refine ⟨.sending write, ⟨rfl, rfl⟩, ?_⟩
  dsimp only
  split
  · trivial
  · split
    · trivial
    · exact leads_sendQueued config write seq mode policy

theorem leads_writeLocally (config : ClientConfig) (write : QueuedWrite) (merge : Bool)
    (mode : WriteMode) (policy : ErrorPolicy) (existing : Option StoredRow) :
    Leads (.stamped write.baseVersion)
      (writeLocally config write merge mode policy existing) := by
  unfold writeLocally
  dsimp only
  split
  · exact leads_past trivial fun _ => leads_queueAndSend config _ mode policy
  · exact leads_past trivial fun _ => leads_queueAndSend config _ mode policy

theorem leads_write (config : ClientConfig) (table id : String) (row : Option Json)
    (options : WriteOptions) (hfirst : options.mode.getD config.writeMode ≠ .serverFirst)
    (honly : options.mode.getD config.writeMode ≠ .serverOnly) :
    Leads .plain (write config table id row options) := by
  refine leads_past trivial fun refusal => ?_
  cases refusal with
  | some phase => trivial
  | none =>
      refine fun stamp => ⟨.stamped stamp, rfl, leads_past trivial fun key => ?_⟩
      simp only [writeStamped, hfirst, honly, or_self, if_false]
      exact leads_past trivial fun existing => leads_writeLocally config _ _ _ _ existing

theorem leads_flushEach (config : ClientConfig) (policy : ErrorPolicy) (sent : Nat)
    {entries : List QueueEntry} (rest : List QueueEntry) (hrest : rest ⊆ entries) :
    Leads (.listed entries) (flushEach config policy sent rest) := by
  induction rest generalizing sent with
  | nil => trivial
  | cons entry rest ih =>
      obtain ⟨hentry, hrest⟩ := List.cons_subset.mp hrest
      unfold flushEach
      have hsend : Leads (.listed entries) (flushEach.sendEntry config entry) fun _ after =>
          after = .listed entries := by
        unfold flushEach.sendEntry
        split
        · rfl
        · exact fun change => ⟨_, ⟨hentry, rfl⟩, leads_quiet
            ((transmit_only _ _).mono fun _ => transmits_quiet) _⟩
      refine hsend.bind fun reply after hafter => ?_
      obtain rfl := hafter
      cases reply with
      | error error => trivial
      | ok committedVersion => exact leads_past trivial fun _ => ih (sent + 1) hrest

theorem leads_flushQueue (config : ClientConfig) (policy : ErrorPolicy) :
    Leads .plain (flushQueue config policy) := by
  refine leads_past trivial fun refusal => ?_
  cases refusal with
  | some phase => trivial
  | none =>
      exact fun entries => ⟨.listed entries, rfl,
        leads_flushEach config policy 0 entries (List.Subset.refl _)⟩

theorem leads_call (config : ClientConfig) (call : Call) (hqueues : call.Queues config) :
    Leads .plain (call.program config) := by
  cases call with
  | write table id row options =>
      exact (leads_write config table id row options hqueues.1 hqueues.2).bind
        fun _ _ _ => trivial
  | flushQueue policy => exact (leads_flushQueue config policy).bind fun _ _ _ => trivial
  | applyChange _ | hydrate _ | newClient _ => exact hqueues.elim

variable {start world : World} {history : Missed ChangeEvent} {thread other : Nat}
  {stage seen after : SendStage} {action : Action} {input : Input} {entry current : QueueEntry}

theorem perform_handed (action : Action) (input : Input) (world : World) :
    (perform action input world).2.handed =
      world.handed ++ (action.handsOff world).toList := by
  cases action with
  | handOff change => rfl
  | handOffEntry entry => rfl
  | dispatch _ | lock | renew | afterRenew _ _ | readHandle | stopBegin | releaseLease
  | settled =>
      rw [(Action.ofSession.sameClient (by trivial) input world).handed]
      exact (List.append_nil _).symm
  | _ => exact (List.append_nil _).symm

/-- A queued write puts its version into the queue of its row. -/
theorem mem_queuedVersions {write : QueuedWrite} (h : write ∈ world.queued) :
    write.baseVersion ∈ world.queuedVersions write.table write.id :=
  List.mem_map_of_mem (List.mem_filter.mpr ⟨h, by simp⟩)

theorem queuedVersions_enqueue (write : QueuedWrite) (table id : String) :
    (perform (.enqueue write) input world).2.queuedVersions table id =
      world.queuedVersions table id ++
        if write.table = table ∧ write.id = id then [write.baseVersion] else [] := by
  simp only [World.queuedVersions, perform, List.filter_append, List.map_append]
  split
  · rename_i hrow
    simp [hrow]
  · rename_i hrow
    simp [hrow]

/-- The versions of a row are only added to. -/
theorem queuedVersions_grow (hnext : Next stage action (perform action input world).1 after)
    (table id : String) :
    (world.queuedVersions table id).Sublist
      ((perform action input world).2.queuedVersions table id) := by
  cases action with
  | enqueue write =>
      rw [queuedVersions_enqueue]
      exact List.sublist_append_left _ _
  | _ => first | exact List.Sublist.refl _ | exact (next_staged hnext).elim

theorem clock_advances (hnext : Next stage action (perform action input world).1 after) :
    world.clock.stamp ≤ (perform action input world).2.clock.stamp := by
  cases action with
  | tick table id => exact (lt_tick world.clock input.now).le
  | _ => first | exact le_rfl | exact (next_staged hnext).elim

/-- A write that is queued was, or the action queues it. -/
theorem next_queued (hnext : Next stage action (perform action input world).1 after)
    {write : QueuedWrite} (hwrite : write ∈ (perform action input world).2.queued) :
    write ∈ world.queued ∨ action = .enqueue write := by
  cases action with
  | enqueue added =>
      rcases List.mem_append.mp hwrite with hold | hnew
      · exact Or.inl hold
      · exact Or.inr (congrArg _ (List.mem_singleton.mp hnew).symm)
  | _ => first | exact Or.inl hwrite | exact (next_staged hnext).elim

theorem queued_subset (hnext : Next stage action (perform action input world).1 after) :
    world.queued ⊆ (perform action input world).2.queued := by
  cases action with
  | enqueue added => exact List.subset_append_left _ _
  | _ => first | exact List.Subset.refl _ | exact (next_staged hnext).elim

/-- An entry the store holds it held, or the action queues its write. -/
theorem next_holds (hnext : Next stage action (perform action input world).1 after)
    (hentry : (perform action input world).2.store.Holds entry) :
    world.store.Holds entry ∨ action = .enqueue entry.toQueuedWrite := by
  cases action with
  | enqueue write =>
      refine (world.store.enqueue_holds write entry hentry).imp_right ?_
      rintro rfl
      rfl
  | settleAck options => exact Or.inl (world.store.settleAck_holds options entry hentry)
  | settleEntry listed committedVersion =>
      exact Or.inl (world.store.settleAck_holds _ entry hentry)
  | _ => first | exact Or.inl hentry | exact (next_staged hnext).elim

theorem next_objects (h : world.store.Objects)
    (hnext : Next stage action (perform action input world).1 after) :
    (perform action input world).2.store.Objects := by
  cases action with
  | enqueue write => exact (h.enqueue write).1
  | settleAck options => exact h.settleAck options
  | settleEntry listed committedVersion => exact h.settleAck _
  | putRow _ _ _ _ | removeRow _ _ _ => exact h.of_same rfl rfl rfl
  | _ => first | exact h | exact (next_staged hnext).elim

/-- An entry of the queue was there, and nothing is queued for its row, or the action
queues its write. -/
theorem next_queue (h : world.store.Objects)
    (hnext : Next stage action (perform action input world).1 after)
    (hentry : entry ∈ (perform action input world).2.store.queue) :
    entry ∈ world.store.queue ∧
        (perform action input world).2.queuedVersions entry.table entry.id =
          world.queuedVersions entry.table entry.id ∨
      action = .enqueue entry.toQueuedWrite := by
  have hsettles : ∀ options, entry ∈ (world.store.settleAck options).2.queue →
      entry ∈ world.store.queue := by
    intro options hkept
    obtain ⟨-, ⟨hqueue, -⟩ | ⟨index, -, -, hqueue, -⟩⟩ := world.store.settleAck_queue options
    · rwa [hqueue] at hkept
    · exact List.mem_of_mem_eraseIdx (hqueue ▸ hkept)
  cases action with
  | enqueue write =>
      rcases (h.enqueue write).2 entry hentry with rfl | ⟨hold, hrow⟩
      · exact Or.inr rfl
      · refine Or.inl ⟨hold, ?_⟩
        rw [queuedVersions_enqueue, if_neg, List.append_nil]
        exact fun hsame => Store.not_sameRow_iff.mp hrow ⟨hsame.1.symm, hsame.2.symm⟩
  | settleAck options => exact Or.inl ⟨hsettles options hentry, rfl⟩
  | settleEntry listed committedVersion => exact Or.inl ⟨hsettles _ hentry, rfl⟩
  | _ => first | exact Or.inl ⟨hentry, rfl⟩ | exact (next_staged hnext).elim

/-- The newer change was queued ahead of the entry. -/
def Ahead (world : World) (newer : ChangeEvent) (entry : QueueEntry) : Prop :=
  [newer.version, entry.baseVersion].Sublist (world.queuedVersions entry.table entry.id)

/-- What an entry of a snapshot may read as: itself, or the object of its number. -/
def ReadsAs (world : World) (entry current : QueueEntry) : Prop :=
  current = entry ∨ world.store.Holds current ∧ current.seq = entry.seq

theorem deref_readsAs (world : World) (entry : QueueEntry) :
    ReadsAs world entry (world.store.deref entry) :=
  (world.store.deref_holds entry).symm.imp_right fun hholds => ⟨hholds, world.store.deref_seq entry⟩

/-- A slot holds the write of its row that was queued last. What was handed over was
queued, and what was queued the clock has met, or it was there before the run. -/
structure Inv (start : World) (state : World × Missed ChangeEvent) : Prop where
  objects : state.1.store.Objects
  stored : ∀ entry, state.1.store.Holds entry → entry.toQueuedWrite ∈ state.1.queued
  last : ∀ entry ∈ state.1.store.queue,
    ∀ version ∈ state.1.queuedVersions entry.table entry.id, version = entry.baseVersion ∨
      [version, entry.baseVersion].Sublist (state.1.queuedVersions entry.table entry.id)
  handed : ∀ change ∈ state.1.handed,
    change.version ∈ state.1.queuedVersions change.table change.id
  stamped : ∀ write ∈ state.1.queued,
    write ∈ start.queued ∨ write.baseVersion ≤ state.1.clock.stamp
  since : ∀ thread, state.2 thread ⊆ state.1.handed

/-- What is handed over above a stamp was handed over in the window, or was there before
the run. -/
def Shows (start : World) (state : World × Missed ChangeEvent) (thread : Nat) (stamp : Hlc) :
    Prop :=
  ∀ newer ∈ state.1.handed, stamp < newer.version →
    newer ∈ state.2 thread ∨ newer.version ∈ start.queuedVersions newer.table newer.id

/-- What a thread knows at its stage. An entry, whatever it reads as, is behind what was
handed over in the window, or was queued ahead of it. -/
def Knows (start : World) (thread : Nat) : SendStage → World × Missed ChangeEvent → Prop
  | .plain, _ => True
  | .stamped stamp, state => stamp ≤ state.1.clock.stamp ∧ Shows start state thread stamp
  | .sending write, state => write ∈ state.1.queued ∧ Shows start state thread write.baseVersion
  | .listed entries, state => ∀ entry ∈ entries, entry.toQueuedWrite ∈ state.1.queued ∧
      ∀ current, ReadsAs state.1 entry current → ∀ newer ∈ state.1.handed,
        Behind current.change newer → newer ∈ state.2 thread ∨ Ahead state.1 newer current

/-- All that was handed over is ahead of a write that is queued now. -/
theorem Inv.ahead_enqueue (h : Inv start (world, history)) (input : Input) {newer : ChangeEvent}
    (hnewer : newer ∈ world.handed) (hbehind : Behind current.change newer) :
    Ahead (perform (.enqueue current.toQueuedWrite) input world).2 newer current := by
  obtain ⟨htable, hid, -⟩ := hbehind
  have hqueued := h.handed newer hnewer
  rw [← htable, ← hid] at hqueued
  rw [Ahead, queuedVersions_enqueue, if_pos ⟨rfl, rfl⟩]
  exact (List.singleton_sublist.mpr hqueued).append (List.Sublist.refl [_])

/-- What a thread hands over has been queued. -/
theorem Knows.handsOff (h : Knows start thread stage (world, history))
    (hinv : Inv start (world, history))
    (hnext : Next stage action (perform action input world).1 after) {change : ChangeEvent}
    (hhands : action.handsOff world = some change) :
    change.version ∈ world.queuedVersions change.table change.id := by
  cases action with
  | handOff handed =>
      obtain rfl := Option.some.inj hhands
      cases stage with
      | sending write =>
          obtain ⟨rfl, -⟩ := hnext
          exact mem_queuedVersions h.1
      | _ => exact hnext.1.elim
  | handOffEntry entry =>
      obtain rfl := Option.some.inj hhands
      cases stage with
      | listed entries =>
          rcases world.store.deref_holds entry with hholds | hsame
          · exact mem_queuedVersions (hinv.stored _ hholds)
          · rw [hsame]
            exact mem_queuedVersions (h entry hnext.1).1
      | _ => exact hnext.1.elim
  | _ => cases hhands

/-- Every action of a thread keeps the invariant. -/
theorem Inv.step (h : Inv start (world, history))
    (hknows : Knows start thread stage (world, history))
    (hnext : Next stage action (perform action input world).1 after) :
    Inv start (moved sendWindow.mark thread action input (world, history)) := by
  have hhanded := perform_handed action input world
  refine ⟨next_objects h.objects hnext, ?_, ?_, ?_, ?_, ?_⟩
  · intro entry hentry
    rcases next_holds hnext hentry with hold | rfl
    · exact queued_subset hnext (h.stored entry hold)
    · exact List.mem_append_right _ (List.mem_singleton_self _)
  · intro entry hentry version hversion
    rcases next_queue h.objects hnext hentry with ⟨hold, hsame⟩ | rfl
    · rw [hsame] at hversion ⊢
      exact h.last entry hold version hversion
    · rw [queuedVersions_enqueue, if_pos ⟨rfl, rfl⟩] at hversion ⊢
      rcases List.mem_append.mp hversion with hold | hlast
      · exact Or.inr ((List.singleton_sublist.mpr hold).append (List.Sublist.refl [_]))
      · exact Or.inl (List.mem_singleton.mp hlast)
  · intro change hchange
    rw [hhanded, List.mem_append] at hchange
    refine (queuedVersions_grow hnext _ _).subset ?_
    rcases hchange with hold | hnow
    · exact h.handed change hold
    · exact hknows.handsOff h hnext (Option.mem_toList.mp hnow)
  · intro write hwrite
    rcases next_queued hnext hwrite with hold | rfl
    · exact (h.stamped write hold).imp_right fun hmet => hmet.trans (clock_advances hnext)
    · cases stage with
      | stamped stamp =>
          obtain ⟨rfl, -⟩ := hnext
          exact Or.inr hknows.1
      | _ => exact hnext.1.elim
  · intro reader change hchange
    rw [hhanded, List.mem_append]
    exact (Window.of_mem_mark hchange).imp_left fun hold => h.since reader hold

/-- What is handed over later falls into the windows that stay open. -/
theorem handed_mark {change : ChangeEvent}
    (hchange : change ∈ (perform action input world).2.handed)
    (hstays : other ≠ thread ∨ sendWindow.opens action = false) :
    change ∈ world.handed ∨
      change ∈ sendWindow.mark thread action input world history other := by
  rw [perform_handed, List.mem_append] at hchange
  refine hchange.imp_right fun hnow => ?_
  have hmark : sendWindow.mark thread action input world history other =
      history other ++ sendWindow.brings action input world := by
    rcases hstays with hne | hstays
    · exact Window.mark_other hne
    · exact Window.mark_stays hstays
  rw [hmark]
  exact List.mem_append_right _ hnow

theorem Shows.mark {stamp : Hlc} (h : Shows start (world, history) other stamp)
    (hstays : other ≠ thread ∨ sendWindow.opens action = false) :
    Shows start (moved sendWindow.mark thread action input (world, history)) other stamp := by
  intro newer hnewer hlt
  rcases handed_mark hnewer hstays with hold | hnow
  · exact (h newer hold hlt).imp_left fun hsince => Window.mem_mark hsince hstays
  · exact Or.inl hnow

/-- What a thread knows it knows after every action but a stamp or a snapshot of its own. -/
theorem Knows.mark (h : Knows start other seen (world, history))
    (hinv : Inv start (world, history))
    (hnext : Next stage action (perform action input world).1 after)
    (hstays : other ≠ thread ∨ sendWindow.opens action = false) :
    Knows start other seen (moved sendWindow.mark thread action input (world, history)) := by
  cases seen with
  | plain => trivial
  | stamped stamp => exact ⟨h.1.trans (clock_advances hnext), h.2.mark hstays⟩
  | sending write => exact ⟨queued_subset hnext h.1, h.2.mark hstays⟩
  | listed entries =>
      intro entry hentry
      obtain ⟨hqueued, hreads⟩ := h entry hentry
      refine ⟨queued_subset hnext hqueued, fun current hcurrent newer hnewer hbehind => ?_⟩
      rcases handed_mark hnewer hstays with hold | hnow
      · have hsame : ReadsAs world entry current →
            newer ∈ sendWindow.mark thread action input world history other ∨
              Ahead (perform action input world).2 newer current := fun hbefore =>
          (hreads current hbefore newer hold hbehind).imp
            (fun hsince => Window.mem_mark hsince hstays)
            (fun hahead => hahead.trans (queuedVersions_grow hnext _ _))
        rcases hcurrent with rfl | ⟨hholds, hseq⟩
        · exact hsame (Or.inl rfl)
        · rcases next_holds hnext hholds with hbefore | rfl
          · exact hsame (Or.inr ⟨hbefore, hseq⟩)
          · exact Or.inr (hinv.ahead_enqueue input hold hbehind)
      · exact Or.inl hnow

/-- A stamp is above all that was handed over, but for what was there before the run. -/
theorem Inv.tick (h : Inv start (world, history)) (table id : String) :
    Knows start thread (.stamped (perform (.tick table id) input world).1)
      (moved sendWindow.mark thread (.tick table id) input (world, history)) := by
  refine ⟨le_rfl, fun newer hnewer hlt => Or.inr ?_⟩
  obtain ⟨write, hwrite, hversion⟩ := List.mem_map.mp (h.handed newer hnewer)
  obtain ⟨hwrite, hrow⟩ := List.mem_filter.mp hwrite
  rcases h.stamped write hwrite with hstart | hmet
  · exact List.mem_map.mpr ⟨write, List.mem_filter.mpr ⟨hstart, hrow⟩, hversion⟩
  · rw [hversion] at hmet
    exact absurd (hmet.trans_lt (lt_tick world.clock input.now)) hlt.not_gt

/-- A snapshot lists the last write of each row. -/
theorem Inv.pending (h : Inv start (world, history)) :
    Knows start thread (.listed (perform .pending input world).1)
      (moved sendWindow.mark thread .pending input (world, history)) := by
  intro entry hentry
  refine ⟨h.stored entry (Or.inl hentry), fun current hcurrent newer hnewer hbehind => ?_⟩
  have hsame : current = entry := by
    rcases hcurrent with hsame | ⟨hholds, hseq⟩
    · exact hsame
    · exact h.objects.eq_of_seq hentry hholds hseq
  subst hsame
  obtain ⟨htable, hid, hlt⟩ := hbehind
  have hqueued := h.handed newer hnewer
  rw [← htable, ← hid] at hqueued
  rcases h.last current hentry _ hqueued with hlast | hahead
  · exact absurd (hlast ▸ hlt) (lt_irrefl _)
  · exact Or.inr hahead

/-- What a thread knows after its own action. -/
theorem Inv.own (h : Inv start (world, history))
    (hknows : Knows start thread stage (world, history))
    (hnext : Next stage action (perform action input world).1 after) :
    Knows start thread after (moved sendWindow.mark thread action input (world, history)) := by
  cases action with
  | tick table id =>
      obtain rfl : after = _ := by cases stage <;> exact hnext
      exact h.tick table id
  | pending =>
      obtain rfl : after = _ := by cases stage <;> exact hnext
      exact h.pending
  | enqueue write =>
      cases stage with
      | stamped stamp =>
          have hstamped : Knows start thread (.stamped stamp)
              (moved sendWindow.mark thread (.enqueue write) input (world, history)) :=
            hknows.mark h hnext (Or.inr rfl)
          obtain ⟨rfl, rfl⟩ := hnext
          exact ⟨List.mem_append_right _ (List.mem_singleton_self _), hstamped.2⟩
      | _ => exact hnext.1.elim
  | _ =>
      obtain rfl : after = stage := by cases stage <;> exact hnext.2
      exact hknows.mark h hnext (Or.inr rfl)

/-- What the threads of a run know, whatever the schedule. -/
def upkeep (start : World) :
    Upkeep session SendStage (Missed ChangeEvent) fun _ _ _ _ _ => True where
  next := Next
  mark := sendWindow.mark
  Inv := Inv start
  Knows := Knows start
  own := fun hinv hknows _ hnext => ⟨hinv.step hknows hnext, hinv.own hknows hnext⟩
  others := fun hinv _ _ hnext _ _ hne hother => hother.mark hinv hnext (Or.inl hne)

/-- Nothing newer of the row was handed over before. -/
def InOrder (action : Action) (world : World) : Prop :=
  ∀ change, action.handsOff world = some change → ∀ newer ∈ world.handed, ¬ Behind change newer

/-- A hand-off is out of order exactly when the thread is overtaken. -/
theorem Inv.inOrder_iff (h : Inv start (world, history))
    (hknows : Knows start thread stage (world, history))
    (hnext : Next stage action (perform action input world).1 after) :
    InOrder action world ↔ ¬ Overtaken start (history thread) action world := by
  constructor
  · rintro hordered ⟨change, hhands, ⟨newer, hsince, hbehind⟩ | ⟨newer, hnewer, hbehind, -⟩⟩
    · exact hordered change hhands newer (h.since thread hsince) hbehind
    · exact hordered change hhands newer hnewer hbehind
  · intro hmeets change hhands newer hnewer hbehind
    refine hmeets ⟨change, hhands, ?_⟩
    cases action with
    | handOff handed =>
        obtain rfl := Option.some.inj hhands
        cases stage with
        | sending write =>
            obtain ⟨rfl, -⟩ := hnext
            rcases hknows.2 newer hnewer hbehind.2.2 with hsince | hstart
            · exact Or.inl ⟨newer, hsince, hbehind⟩
            · refine Or.inr ⟨newer, hnewer, hbehind, ?_⟩
              rw [← hbehind.1, ← hbehind.2.1] at hstart
              exact hstart
        | _ => exact hnext.1.elim
    | handOffEntry entry =>
        obtain rfl := Option.some.inj hhands
        cases stage with
        | listed entries =>
            rcases (hknows entry hnext.1).2 _ (deref_readsAs world entry) newer hnewer hbehind
              with hsince | hahead
            · exact Or.inl ⟨newer, hsince, hbehind⟩
            · exact Or.inr ⟨newer, hnewer, hbehind, hahead⟩
        | _ => exact hnext.1.elim
    | _ => cases hhands

/-- The order is kept by an action exactly when what it hands over is in order. -/
theorem sentInOrder_perform (action : Action) (input : Input) (world : World) :
    SentInOrder (perform action input world).2 ↔ SentInOrder world ∧ InOrder action world := by
  rw [SentInOrder, perform_handed, List.pairwise_append]
  refine and_congr_right fun _ => ?_
  cases hhands : action.handsOff world with
  | none => simp [InOrder, hhands]
  | some change =>
      simp only [InOrder, hhands, Option.toList_some, List.pairwise_singleton, true_and,
        List.mem_singleton, forall_eq, Option.some.injEq, forall_eq']
      refine forall₂_congr fun newer _ => ?_
      simp only [Behind, not_and, not_lt]
      exact ⟨fun hle htable hid => hle htable.symm hid.symm,
        fun hle htable hid => hle htable.symm hid.symm⟩

theorem sentInOrder_iff_heeds {pool : Pool session α} (schedule : List (Pool.Turn session))
    (hstart : SentInOrder pool.world) :
    SentInOrder (pool.run schedule).world ↔
      pool.Heeds (fun action _ world => InOrder action world) schedule := by
  have hstep : ∀ (pool : Pool session α) turn, SentInOrder (pool.step turn).world ↔
      SentInOrder pool.world ∧
        Pool.Takes (fun action _ world => InOrder action world) pool turn := by
    intro pool turn
    rcases hthread : pool.threads[turn.1]? with _ | program
    · rw [Pool.step_idle (by simp [hthread]), and_iff_left]
      exact fun _ _ hcall => by simp [hthread] at hcall
    · cases program with
      | ret value =>
          rw [Pool.step_idle (by simp [hthread]), and_iff_left]
          exact fun _ _ hcall => by simp [hthread] at hcall
      | call action next =>
          rw [Pool.step_call hthread, sentInOrder_perform]
          refine and_congr_right fun _ => ⟨fun h other rest hcall => ?_, fun h => h _ _ hthread⟩
          obtain ⟨rfl, -⟩ := by simpa using hthread.symm.trans hcall
          exact h
  refine Run.final_iff_along (J := fun _ => True) (fun _ _ _ => trivial)
    (fun pool turn hafter => ((hstep pool turn).mp hafter).1) (fun pool turn _ hbefore => ?_)
    schedule trivial hstart
  rw [hstep, and_iff_right hbefore]

end SendOrder

open SendOrder

/-- Any number of flushes and queued writes of one client, in any interleaving, hand the
writes of each row to `send` in non-decreasing order exactly when no write is overtaken
between its stamp and its hand-off, and no listed entry between the snapshot and its own.
The client starts on a store with any queue, and with any clock. -/
theorem flushes_and_writes_send_in_order_iff (config : ClientConfig) (calls : List Call)
    (world : World) (schedule : List (Pool.Turn session))
    (hcalls : ∀ call ∈ calls, call.Queues config) (hslots : world.store.Slots)
    (hdetached : world.store.detached = [])
    (hqueued : world.queued = world.store.queue.map (·.toQueuedWrite))
    (hhanded : world.handed = []) :
    let pool : Pool session (Outcome CallResult) :=
      { world := world, threads := calls.map (Call.program config) }
    SentInOrder (pool.run schedule).world ↔
      pool.Watched sendWindow.mark (fun since thread action _ later =>
        ¬ Overtaken world (since thread) action later) schedule fun _ => [] := by
  intro pool
  have hinv : Inv world (world, fun _ => []) := by
    refine ⟨⟨hslots, ?_, ?_⟩, ?_, ?_, ?_, fun _ hwrite => Or.inl hwrite, ?_⟩
    · simp [hdetached]
    · simp [hdetached]
    · rintro entry (hentry | hentry)
      · exact hqueued ▸ List.mem_map_of_mem hentry
      · simp [hdetached] at hentry
    · intro entry hentry version hversion
      rw [World.queuedVersions, hqueued] at hversion
      obtain ⟨write, hwrite, rfl⟩ := List.mem_map.mp hversion
      obtain ⟨hwrite, hrow⟩ := List.mem_filter.mp hwrite
      obtain ⟨other, hother, rfl⟩ := List.mem_map.mp hwrite
      obtain ⟨htable, hid⟩ : other.table = entry.table ∧ other.id = entry.id :=
        of_decide_eq_true hrow
      rw [hslots.single other hother entry hentry (Store.sameRow_iff.mpr ⟨htable, hid⟩)]
      exact Or.inl rfl
    · simp [hhanded]
    · simp
  have hkept : Pool.Kept (upkeep world) pool fun _ => [] := by
    refine ⟨hinv, fun i program hprogram => ⟨.plain, ?_, trivial⟩⟩
    obtain ⟨call, hcall, rfl⟩ := by simpa [pool] using hprogram
    exact leads_call config call (hcalls call (List.mem_of_getElem? hcall))
  rw [sentInOrder_iff_heeds schedule (by simp [SentInOrder, pool, hhanded])]
  refine (Pool.watched_iff_along sendWindow.mark (fun _ action _ world => InOrder action world)
    pool schedule fun _ => []).symm.trans ?_
  exact hkept.watched_iff (fun _ _ _ _ _ _ => trivial) fun hinv hknows hnext =>
    Inv.inOrder_iff hinv hknows hnext

/-- A queued write to a row of `todos`, stamped at a reading of the device clock. -/
def queuedAt (id : String) (wallMs : Nat) : QueuedWrite :=
  { table := "todos", id := id, op := .upsert, payload := some (.num wallMs),
    baseVersion := { wallMs := wallMs, counter := 0, actor := "device" },
    key := "device-" ++ id }

/-- Two rows are queued in a browser database. A flush starts, and a write to
the second row. -/
def flushBesideWrite : Pool session (Outcome CallResult) :=
  { world :=
      { store :=
          { kind := .indexedDb, seq := 2,
            queue := [(queuedAt "a" 1).atSeq 1, (queuedAt "b" 2).atSeq 2] }
        clock := Clock.fresh "device"
        queued := [queuedAt "a" 1, queuedAt "b" 2] }
    threads :=
      [Call.flushQueue .emitOnly, Call.write "todos" "b" (some (.num 5)) {}].map
        (Call.program { send := some .custom }) }

theorem write_before_flush_in_order :
    SentInOrder (flushBesideWrite.run (turns 1 7 { now := 5 } ++ turns 0 10)).world := by
  refine (flushes_and_writes_send_in_order_iff { send := some .custom }
    [.flushQueue .emitOnly, .write "todos" "b" (some (.num 5)) {}] flushBesideWrite.world
    (turns 1 7 { now := 5 } ++ turns 0 10) ?_ ?_ rfl rfl rfl).mpr (by decide)
  · simp [Call.Queues]
  · refine ⟨by decide, by decide, ?_⟩
    simp [flushBesideWrite, QueueEntry.sameRow, QueuedWrite.atSeq, queuedAt]

/-- While the flush waits for the answer to its first entry, the write to the
second row is queued and sent. The flush then sends the copy it listed. -/
theorem flush_sends_the_listed_copy :
    ¬ SentInOrder (flushBesideWrite.run
      (turns 0 3 ++ turns 1 7 { now := 5 } ++
        turns 0 3 { response := .ok none })).world := by
  decide

end ZedSync.Js
