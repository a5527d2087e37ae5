import ZedSync.Clock
import ZedSync.Dart.Lifecycle
import ZedSync.Dart.Storage
import ZedSync.Lib.Async

/-!
`SyncClient` of the Dart package (`dart/zed_sync/lib/src/client.dart`) over a
`MemoryStorage`. As in the browser client every method is the program of its
awaits, and each storage call is atomic. There is no allowlist, no merge and no
overflow here, `flushQueue` has no error policy, and `send` always answers with
a committed version.
-/

namespace ZedSync.Dart

open Async

structure ClientConfig where
  hasSend : Bool := false
  writeMode : WriteMode := .optimisticQueue
  errorPolicy : ErrorPolicy := .emitOnly
  conflictResolution : ConflictResolution := .serverWins
  deriving Repr, Inhabited

inductive Capability where
  | canWrite
  | canReceiveChanges
  deriving DecidableEq, Repr

/-- `AppCapabilities` of the validated phase; a malformed snapshot has none. -/
def Capability.read (snapshot : AppLifecycleSnapshot) : Capability → Bool
  | .canWrite => validates snapshot && [.online, .offline].contains snapshot.phase
  | .canReceiveChanges =>
      validates snapshot && [.starting, .online, .offline].contains snapshot.phase

inductive Response where
  | failed (message : String)
  | committed (version : Hlc)
  deriving DecidableEq, Repr

/-- What the outside answers an action with. -/
structure Input where
  now : Nat := 0
  response : Response := .failed ""

/-- What passes between a client and the server: a change handed to `send`, and
a write whose acknowledgement came back. -/
inductive Exchange where
  | sent (change : ChangeEvent)
  | acked (write : QueuedWrite)
  deriving Repr

/-- The fields from `queued` on are histories: the writes queued, the row keys
and versions stored clean, and the exchanges with the server. -/
structure World where
  storage : MemoryStorage := {}
  clock : Clock
  keySeq : Nat := 0
  lifecycle : Option AppLifecycleSnapshot := none
  queued : List QueuedWrite := []
  adopted : List (String × Hlc) := []
  exchanges : List Exchange := []

instance : Inhabited World := ⟨{ clock := Clock.fresh "" }⟩

/-- The actions. As in the browser client, `tick` names the row its stamp is for. -/
inductive Action where
  | requireCapability (capability : Capability)
  | observe (remote : Hlc)
  | tick (table id : String)
  | nextKey
  | now
  | getRow (table id : String)
  | putRow (table id : String) (row : StoredRow)
  | enqueue (write : QueuedWrite)
  | pending
  | retire (write : QueuedWrite)
  | settleAck (write : QueuedWrite) (committedVersion : Hlc)
  | send (change : ChangeEvent)
  | response
  | newClient

abbrev Action.Reply : Action → Type
  | .requireCapability _ => Option AppPhase
  | .tick _ _ => Hlc
  | .nextKey => String
  | .now => Nat
  | .getRow _ _ => Option StoredRow
  | .pending => List QueuedWrite
  | .settleAck _ _ => StoredAckSettlement
  | .response => Response
  | _ => Unit

/-- `_nextKey`, in decimal. -/
def nextKey (actor : String) (now seq : Nat) : String :=
  actor ++ "-" ++ toString now ++ "-" ++ toString seq

namespace World

/-- The phase a client is refused in, or none when it is admitted. -/
def refusal (world : World) (capability : Capability) : Option AppPhase :=
  world.lifecycle.bind fun snapshot =>
    if capability.read snapshot then none else some snapshot.phase

def putRow (world : World) (table id : String) (row : StoredRow) : World :=
  { world with
    storage := world.storage.putRow table id row
    adopted := world.adopted ++ if row.dirty then [] else [(rowKey table id, row.version)] }

end World

def perform : (action : Action) → Input → World → action.Reply × World
  | .requireCapability capability, _, world => (world.refusal capability, world)
  | .observe remote, input, world =>
      ((), { world with clock := observe world.clock remote input.now })
  | .tick _ _, input, world =>
      let clock := tick world.clock input.now
      (clock.stamp, { world with clock := clock })
  | .nextKey, input, world =>
      (nextKey world.clock.actor input.now world.keySeq,
        { world with keySeq := world.keySeq + 1 })
  | .now, input, world => (input.now, world)
  | .getRow table id, _, world => (world.storage.getRow table id, world)
  | .putRow table id row, _, world => ((), world.putRow table id row)
  | .enqueue write, _, world =>
      ((), { world with
        storage := world.storage.enqueue write, queued := world.queued ++ [write] })
  | .pending, _, world => (world.storage.pending, world)
  | .retire write, _, world => ((), { world with storage := world.storage.retire write })
  | .settleAck write committedVersion, input, world =>
      let (settlement, storage) := world.storage.settleAck write committedVersion input.now
      (settlement, { world with
        storage := storage, exchanges := world.exchanges ++ [.acked write] })
  | .send change, _, world =>
      ((), { world with exchanges := world.exchanges ++ [.sent change] })
  | .response, input, world => (input.response, world)
  | .newClient, _, world =>
      ((), { world with clock := Clock.fresh world.clock.actor, keySeq := 0 })

/-- The actions of a device running the Dart client. -/
@[reducible] def device : Interface where
  World := World
  Input := Input
  noInput := {}
  Action := Action
  Reply := Action.Reply
  perform := perform

/-- Consecutive turns of one thread, answered alike. -/
def turns (thread count : Nat) (input : Input := {}) : List (Pool.Turn device) :=
  List.replicate count (thread, input)

/-- What a method throws. -/
inductive ClientError where
  | lifecycle (operation : String) (phase : AppPhase)
  | noSendTransport
  | sendFailed (message : String)
  deriving DecidableEq, Repr

def ClientError.message : ClientError → String
  | .lifecycle operation phase =>
      "zed-sync lifecycle: cannot " ++ operation ++ " while " ++ phase.text
  | .noSendTransport => "no send transport configured"
  | .sendFailed message => message

abbrev Outcome (α : Type) := Except ClientError α

def act (action : Action) : Prog device action.Reply := .call action .ret

/-- `_surface`. -/
def surface (error : ClientError) (policy : ErrorPolicy) (otherwise : α) : Outcome α :=
  if policy.shouldThrow then .error error else .ok otherwise

/-- `_requireCapability`, before the rest of the method. -/
def requireCapability (capability : Capability) (operation : String)
    (body : Prog device (Outcome α)) : Prog device (Outcome α) := do
  match ← act (.requireCapability capability) with
  | some phase => return .error (.lifecycle operation phase)
  | none => body

def adopt (incoming : ChangeEvent) : Prog device Unit := do
  let now ← act .now
  act (.putRow incoming.table incoming.id
    { row := incoming.live, version := incoming.version, dirty := false,
      syncedAtMs := some now })

/-- The loop over the queue on a conflict. -/
def retireEach (table id : String) : List QueuedWrite → Prog device Unit
  | [] => return ()
  | write :: rest => do
      if write.sameRow table id then act (.retire write)
      retireEach table id rest

def adoptAs (incoming : ChangeEvent) (outcome : ChangeOutcome) :
    Prog device (Outcome ChangeOutcome) := do
  adopt incoming
  return .ok outcome

def adoptOverQueued (incoming : ChangeEvent) : Prog device (Outcome ChangeOutcome) := do
  adopt incoming
  retireEach incoming.table incoming.id (← act .pending)
  return .ok .conflictResolved

/-- Whether a conflict goes to the incoming change. -/
def resolvesToIncoming (resolution : ConflictResolution) (stored : StoredRow)
    (incoming : ChangeEvent) : Bool :=
  resolution = .serverWins ∨ compareTo incoming.version stored.version > 0

/-- `applyChange` from the decision on. -/
def applyDecision (config : ClientConfig) (incoming : ChangeEvent)
    (existing : Option StoredRow) : Prog device (Outcome ChangeOutcome) :=
  match existing, reconcile (existing.map StoredRow.localRow) incoming with
  | _, .apply => adoptAs incoming .applied
  | some stored, .conflict =>
      if resolvesToIncoming config.conflictResolution stored incoming then
        adoptOverQueued incoming
      else return .ok .ignored
  | some stored, .ignore .alreadyApplied =>
      if !stored.dirty then adoptAs incoming .refreshed
      else return .ok .ignored
  | _, _ => return .ok .ignored

def applyChange (config : ClientConfig) (incoming : ChangeEvent) :
    Prog device (Outcome ChangeOutcome) :=
  requireCapability .canReceiveChanges "receive changes" do
    act (.observe incoming.version)
    let existing ← act (.getRow incoming.table incoming.id)
    applyDecision config incoming existing

/-- `_doSend`, up to the answer. -/
def doSend (config : ClientConfig) (change : ChangeEvent) : Prog device (Outcome Hlc) := do
  if config.hasSend then
    act (.send change)
    match ← act .response with
    | .failed message => return .error (.sendFailed message)
    | .committed version => return .ok version
  else return .error .noSendTransport

/-- The change a queued write is sent as. -/
def QueuedWrite.change (write : QueuedWrite) : ChangeEvent :=
  { table := write.table, op := write.op, id := write.id, version := write.baseVersion,
    row := write.payload, writeKey := some write.key }

/-- `serverFirst` and `serverOnly`. -/
def writeThroughServer (config : ClientConfig) (change : ChangeEvent) (mode : WriteMode)
    (policy : ErrorPolicy) : Prog device (Outcome WriteResult) := do
  match ← doSend config change with
  | .error error => return surface error policy { status := .failed, version := change.version }
  | .ok committed =>
      if mode = .serverFirst then
        let now ← act .now
        act (.putRow change.table change.id
          { row := change.row, version := committed, dirty := false, syncedAtMs := some now })
      return .ok { status := .acked, version := committed }

/-- The end of an optimistic write: send now, and settle the ack. -/
def sendQueued (config : ClientConfig) (queued : QueuedWrite) (mode : WriteMode)
    (policy : ErrorPolicy) : Prog device (Outcome WriteResult) := do
  match ← doSend config queued.change with
  | .ok committed =>
      let _ ← act (.settleAck queued committed)
      return .ok { status := .acked, version := committed }
  | .error error =>
      let result : WriteResult := { status := .queued, version := queued.baseVersion }
      return if mode = .optimisticAwaitAck then surface error policy result else .ok result

/-- The optimistic write from the row it read on: apply locally, queue, send. -/
def writeLocally (config : ClientConfig) (queued : QueuedWrite) (mode : WriteMode)
    (policy : ErrorPolicy) (existing : Option StoredRow) :
    Prog device (Outcome WriteResult) := do
  act (.putRow queued.table queued.id
    { row := queued.payload, version := queued.baseVersion, dirty := true,
      syncedAtMs := existing.bind (·.syncedAtMs) })
  act (.enqueue queued)
  if mode = .localOnly then return .ok { status := .localWrite, version := queued.baseVersion }
  else sendQueued config queued mode policy

/-- `write` once its stamp and key are minted. -/
def writeStamped (config : ClientConfig) (queued : QueuedWrite) (mode : WriteMode)
    (policy : ErrorPolicy) : Prog device (Outcome WriteResult) := do
  if mode = .serverFirst ∨ mode = .serverOnly then
    writeThroughServer config queued.change mode policy
  else
    let existing ← act (.getRow queued.table queued.id)
    writeLocally config queued mode policy existing

structure WriteOptions where
  op : Op := .upsert
  mode : Option WriteMode := none
  policy : Option ErrorPolicy := none
  deriving Repr, Inhabited

def write (config : ClientConfig) (table id : String) (row : Option Json)
    (options : WriteOptions) : Prog device (Outcome WriteResult) :=
  requireCapability .canWrite "write" do
    let mode := options.mode.getD config.writeMode
    let policy := options.policy.getD config.errorPolicy
    let version ← act (.tick table id)
    let key ← act .nextKey
    writeStamped config
      { table := table, id := id, op := options.op, payload := row, baseVersion := version,
        key := key }
      mode policy

/-- Delete convenience. -/
def delete (config : ClientConfig) (table id : String) (options : WriteOptions) :
    Prog device (Outcome WriteResult) :=
  write config table id none { options with op := .delete }

/-- The loop of `flushQueue` over the entries still ahead; any failure ends it. -/
def flushEach (config : ClientConfig) (sent : Nat) : List QueuedWrite → Prog device (Outcome Nat)
  | [] => return .ok sent
  | write :: rest => do
      match ← doSend config write.change with
      | .error _ => return .ok sent
      | .ok committed =>
          let _ ← act (.settleAck write committed)
          flushEach config (sent + 1) rest

def flushQueue (config : ClientConfig) : Prog device (Outcome Nat) :=
  requireCapability .canWrite "flush" do
    flushEach config 0 (← act .pending)

/-- The calls made on one client, and its replacement by a new one over the same
storage. -/
inductive Call where
  | applyChange (incoming : ChangeEvent)
  | write (table id : String) (row : Option Json) (options : WriteOptions)
  | flushQueue
  | newClient
  deriving Repr

inductive CallResult where
  | changed (outcome : ChangeOutcome)
  | wrote (result : WriteResult)
  | flushed (sent : Nat)
  | started
  deriving DecidableEq, Repr

def Call.program (config : ClientConfig) : Call → Prog device (Outcome CallResult)
  | .applyChange incoming => do return (← Dart.applyChange config incoming).map .changed
  | .write table id row options => do
      return (← Dart.write config table id row options).map .wrote
  | .flushQueue => do return (← Dart.flushQueue config).map .flushed
  | .newClient => do
      act .newClient
      return .ok .started

/-- The row an action puts into the storage: its table and id, and what is stored. -/
def Action.puts : Action → Option (String × String × StoredRow)
  | .putRow table id row => some (table, id, row)
  | _ => none

theorem perform_puts {action : Action} {table id : String} {row : StoredRow}
    (h : action.puts = some (table, id, row)) (input : Input) (world : World) :
    (perform action input world).2.storage = world.storage.putRow table id row ∧
      (perform action input world).2.adopted =
        world.adopted ++ if row.dirty then [] else [(rowKey table id, row.version)] := by
  cases action with
  | putRow table' id' row' =>
      obtain ⟨rfl, rfl, rfl⟩ := by simpa [Action.puts] using h
      exact ⟨rfl, rfl⟩
  | _ => cases h

theorem perform_adopted {action : Action} (h : action.puts = none) (input : Input)
    (world : World) : (perform action input world).2.adopted = world.adopted := by
  cases action with
  | putRow table id row => cases h
  | _ => rfl

/-- Only a put lowers the version of a row, and no action forgets one. -/
theorem perform_rows {action : Action} (hputs : action.puts = none) (input : Input)
    (world : World) {key : String} {stored : StoredRow}
    (h : world.storage.rows key = some stored) :
    ∃ later, (perform action input world).2.storage.rows key = some later ∧
      stored.version ≤ later.version := by
  cases action with
  | putRow table id row => cases hputs
  | settleAck write committed => exact world.storage.settleAck_raises write committed _ h
  | _ => exact ⟨stored, h, le_rfl⟩

/-- The actions a delivery of `incoming` is made of. -/
def Action.Delivers (incoming : ChangeEvent) : Action → Prop
  | .putRow table id row =>
      table = incoming.table ∧ id = incoming.id ∧ row.version = incoming.version ∧
        row.dirty = false
  | .requireCapability _ | .observe _ | .getRow _ _ | .now | .pending | .retire _ => True
  | _ => False

theorem adopt_only (incoming : ChangeEvent) :
    (adopt incoming).Only (Action.Delivers incoming) :=
  ⟨trivial, fun _ => ⟨⟨rfl, rfl, rfl, rfl⟩, fun _ => trivial⟩⟩

theorem retireEach_only (incoming : ChangeEvent) (table id : String)
    (writes : List QueuedWrite) :
    (retireEach table id writes).Only (Action.Delivers incoming) := by
  induction writes with
  | nil => trivial
  | cons write rest ih =>
      simp only [retireEach]
      split
      · exact ⟨trivial, fun _ => ih⟩
      · exact ih

theorem applyDecision_only (config : ClientConfig) (incoming : ChangeEvent)
    (existing : Option StoredRow) :
    (applyDecision config incoming existing).Only (Action.Delivers incoming) := by
  have hadoptAs : ∀ outcome, (adoptAs incoming outcome).Only (Action.Delivers incoming) :=
    fun _ => (adopt_only incoming).bind fun _ => trivial
  unfold applyDecision
  split
  · exact hadoptAs _
  · split
    · refine (adopt_only incoming).bind fun _ => ⟨trivial, fun writes => ?_⟩
      exact (retireEach_only incoming _ _ writes).bind fun _ => trivial
    · trivial
  · split
    · exact hadoptAs _
    · trivial
  · trivial

theorem applyChange_only (config : ClientConfig) (incoming : ChangeEvent) :
    (applyChange config incoming).Only (Action.Delivers incoming) := by
  refine ⟨trivial, fun refusal => ?_⟩
  cases refusal with
  | some phase => trivial
  | none => exact ⟨trivial, fun _ => ⟨trivial, fun existing => applyDecision_only _ _ existing⟩⟩

/-- The action puts nothing dirty. -/
def Action.PutsClean : Action → Prop
  | .putRow _ _ row => row.dirty = false
  | _ => True

theorem doSend_putsClean (config : ClientConfig) (change : ChangeEvent) :
    (doSend config change).Only Action.PutsClean := by
  unfold doSend
  split
  · refine ⟨trivial, fun _ => ⟨trivial, fun response => ?_⟩⟩
    cases response <;> trivial
  · trivial

theorem sendQueued_putsClean (config : ClientConfig) (queued : QueuedWrite) (mode : WriteMode)
    (policy : ErrorPolicy) : (sendQueued config queued mode policy).Only Action.PutsClean := by
  refine (doSend_putsClean config queued.change).bind fun reply => ?_
  cases reply with
  | error error => trivial
  | ok committed => exact ⟨trivial, fun _ => trivial⟩

theorem writeThroughServer_putsClean (config : ClientConfig) (change : ChangeEvent)
    (mode : WriteMode) (policy : ErrorPolicy) :
    (writeThroughServer config change mode policy).Only Action.PutsClean := by
  refine (doSend_putsClean config change).bind fun reply => ?_
  cases reply with
  | error error => trivial
  | ok committed =>
      dsimp only
      split
      · exact ⟨trivial, fun _ => ⟨rfl, fun _ => trivial⟩⟩
      · trivial

theorem flushEach_putsClean (config : ClientConfig) (sent : Nat) (writes : List QueuedWrite) :
    (flushEach config sent writes).Only Action.PutsClean := by
  induction writes generalizing sent with
  | nil => trivial
  | cons write rest ih =>
      refine (doSend_putsClean config write.change).bind fun reply => ?_
      cases reply with
      | error error => trivial
      | ok committed => exact ⟨trivial, fun _ => ih _⟩

theorem flushQueue_putsClean (config : ClientConfig) :
    (flushQueue config).Only Action.PutsClean := by
  refine ⟨trivial, fun refusal => ?_⟩
  cases refusal with
  | some phase => trivial
  | none => exact ⟨trivial, fun writes => flushEach_putsClean _ _ writes⟩

/-- What a write puts into its row. -/
def RowHolds (write : QueuedWrite) (world : World) : Prop :=
  ∃ stored, world.storage.getRow write.table write.id = some stored ∧
    stored.row = write.payload ∧ stored.version = write.baseVersion ∧ stored.dirty = true

/-- A write not yet acknowledged is in place: in its row, and in the queue. -/
def InPlace (write : QueuedWrite) (world : World) : Prop :=
  RowHolds write world ∧ write ∈ world.storage.queue

end ZedSync.Dart
