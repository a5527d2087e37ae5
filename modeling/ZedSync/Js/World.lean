import ZedSync.Clock
import ZedSync.Js.Lifecycle
import ZedSync.Js.Store
import ZedSync.Lib.Async

/-!
Everything a JavaScript session acts on, and its atomic actions. A store call is
atomic, as is each stretch of code that reads and writes without an `await` in
the middle and whose parts matter together: the fence read with the request it
stamps, the loss of the lease with its callback, the first part of `stop`.
-/

namespace ZedSync.Js

/-- A live grant of the lock service. `serial` stands for the identity of the
handle object, which the heartbeat compares. -/
structure Handle where
  serial : Nat
  fencingToken : Nat
  leaseExpiresMs : Option Nat
  deriving DecidableEq, Repr, Inhabited

structure Lease where
  key : String
  handle : Option Handle := none
  failures : Nat := 0
  renewFailureLimit : Nat := 3
  deriving Repr, Inhabited

def Lease.held (lease : Lease) : Bool := lease.handle.isSome

/-- A request `makeBackendSender` issued: its body, the lease headers it
carries, and whether the lease was held when it went out. -/
structure HttpRequest where
  change : ChangeEvent
  fence : Option (String × Nat)
  held : Bool
  deriving Repr

/-- What the promise of `send` settles with. `committed_version` may be absent. -/
inductive Response where
  | failed (message : String)
  | ok (committedVersion : Option Hlc)
  deriving DecidableEq, Repr

/-- How a renewal settled. `authorityLost` is the test of the error text. -/
inductive Renewal where
  | ok
  | failed (authorityLost : Bool)
  deriving DecidableEq, Repr

/-- What the outside answers an action with; each action reads its own part. -/
structure Input where
  now : Nat := 0
  response : Response := .failed ""
  tokenOk : Bool := true
  renewal : Renewal := .ok
  grant : Option (Nat × Option Nat) := none
  transportsStop : Bool := true

/-- The fields from `granted` on are histories: what the lock service granted,
the writes queued, the row keys and versions stored clean, the changes handed
to `send`, and the requests issued. -/
structure World where
  store : Store := {}
  clock : Clock
  keySeq : Nat := 0
  lifecycle : Option AppLifecycleSnapshot := none
  lease : Option Lease := none
  stopCalled : Bool := false
  granted : List Nat := []
  queued : List QueuedWrite := []
  adopted : List (String × Hlc) := []
  handed : List ChangeEvent := []
  requests : List HttpRequest := []

instance : Inhabited World := ⟨{ clock := Clock.fresh "" }⟩

inductive Capability where
  | canWrite
  | canReceiveChanges
  deriving DecidableEq, Repr

def Capability.read (capabilities : AppCapabilities) : Capability → Bool
  | .canWrite => capabilities.canWrite
  | .canReceiveChanges => capabilities.canReceiveChanges

/-- How far `stop` got before its first `await`. A second call joins the first. -/
inductive StopBegin where
  | joined
  | alreadyStopped
  | rejected (phase : AppPhase)
  | transportsFailed (stopToken : Option Nat)
  | releasing (stopToken : Option Nat)
  deriving DecidableEq, Repr

/-- The actions. `tick` takes no argument in the source; the row its stamp is for
is named here so that a statement can speak of it. -/
inductive Action where
  | requireCapability (capability : Capability)
  | observe (remote : Hlc)
  | tick (table id : String)
  | nextKey
  | dateNow
  | getRow (table id : String)
  | putRow (table id : String) (row : Option Json) (rowMeta : RowMeta)
  | removeRow (table id : String) (rowMeta : RowMeta)
  | enqueue (write : QueuedWrite)
  | pending
  | retire (seq : Nat)
  | settleAck (options : SettleOptions)
  | handOff (change : ChangeEvent)
  | handOffEntry (entry : QueueEntry)
  | settleEntry (entry : QueueEntry) (committedVersion : Option Hlc)
  | response
  | token
  | fetch (change : ChangeEvent)
  | dispatch (event : LifecycleEvent)
  | lock
  | renew
  | afterRenew (handle : Handle) (sessionToken : Nat)
  | readHandle
  | stopBegin
  | releaseLease
  | settled
  | newClient (newProcess : Bool)

abbrev Action.Reply : Action → Type
  | .requireCapability _ => Option AppPhase
  | .tick _ _ => Hlc
  | .nextKey => String
  | .dateNow => Nat
  | .getRow _ _ => Option StoredRow
  | .enqueue _ => Nat × Option QueueEntry
  | .pending => List QueueEntry
  | .settleAck _ => Bool × Bool
  | .handOffEntry _ => ChangeEvent
  | .settleEntry _ _ => Bool × Bool
  | .response => Response
  | .token => Bool
  | .dispatch _ => Option TransitionOutcome
  | .lock => Bool
  | .renew => Renewal
  | .afterRenew _ _ => Bool
  | .readHandle => Option Handle
  | .stopBegin => StopBegin
  | _ => Unit

/-- A base-36 digit, as `Number.prototype.toString` writes it. -/
def digit36 (value : Nat) : Char :=
  if value < 10 then Char.ofNat (48 + value) else Char.ofNat (87 + value)

/-- The digits of a number in front of those already written. -/
def digits36 : Nat → Nat → List Char → List Char
  | 0, _, written => written
  | fuel + 1, value, written =>
      if value < 36 then digit36 value :: written
      else digits36 fuel (value / 36) (digit36 (value % 36) :: written)

/-- `toString(36)`. -/
def toString36 (value : Nat) : String := String.ofList (digits36 (value + 1) value [])

def nextKey (actor : String) (now seq : Nat) : String :=
  actor ++ "-" ++ toString36 now ++ "-" ++ toString36 seq

/-- The change a queued entry is sent as. -/
def QueueEntry.change (entry : QueueEntry) : ChangeEvent :=
  { table := entry.table, op := entry.op, id := entry.id, version := entry.baseVersion,
    row := entry.payload, writeKey := some entry.key }

namespace World

def storedVersion (world : World) (table id : String) : Option Hlc :=
  (world.store.getRow table id).map (·.rowMeta.version)

def held (world : World) : Bool := world.lease.any Lease.held

/-- `getFence`: the key and token of the live grant, if there is one. -/
def getFence (world : World) : Option (String × Nat) :=
  world.lease.bind fun lease =>
    lease.handle.map fun handle => (lease.key, handle.fencingToken)

/-- The phase a client is refused in, or none when it is admitted. A client
without a lifecycle authority is always admitted. -/
def refusal (world : World) (capability : Capability) : Option AppPhase :=
  world.lifecycle.bind fun snapshot =>
    if capability.read (appCapabilities snapshot) then none else some snapshot.phase

def dispatch (world : World) (event : LifecycleEvent) : Option TransitionOutcome × World :=
  match world.lifecycle with
  | none => (none, world)
  | some snapshot =>
      let (next, outcome) := Js.dispatch snapshot event
      (outcome, { world with lifecycle := some next })

def putRow (world : World) (table id : String) (row : Option Json) (rowMeta : RowMeta) :
    World :=
  { world with
    store := world.store.putRow table id row rowMeta
    adopted := world.adopted ++
      if rowMeta.dirty then [] else [(rowKey table id, rowMeta.version)] }

def removeRow (world : World) (table id : String) (rowMeta : RowMeta) : World :=
  { world with
    store := world.store.removeRow table id rowMeta
    adopted := world.adopted ++
      if rowMeta.dirty then [] else [(rowKey table id, rowMeta.version)] }

def settle (world : World) (options : SettleOptions) : (Bool × Bool) × World :=
  let (settlement, store) := world.store.settleAck options
  (settlement, { world with store := store })

def setHandle (world : World) (handle : Option Handle) (failures : Nat) : World :=
  { world with
    lease := world.lease.map fun lease =>
      { lease with handle := handle, failures := failures } }

/-- The outcome of `acquire`: a granted handle is adopted. Waiting for the grant
changes nothing, so the attempts of its loop are one wait. -/
def acquire (world : World) : Option (Nat × Option Nat) → Bool × World
  | none => (false, world)
  | some grant =>
      (true,
        { world.setHandle
            (some { serial := world.granted.length, fencingToken := grant.1,
                    leaseExpiresMs := grant.2 }) 0 with
          granted := world.granted ++ [grant.1] })

/-- `_markLost` with the `onLost` of `startSync`: the handle is gone, then the
transports stop, and only then is the failure published. A transport whose
`stop` throws leaves the lifecycle where it was. -/
def markLost (world : World) (sessionToken : Nat) (transportsStop : Bool) : World :=
  let lost := world.setHandle none 0
  if transportsStop then (lost.dispatch (.runtimeFailed sessionToken)).2 else lost

/-- What `_beat` does once the renewal of `handle` settled. The reply says
whether the heartbeat goes on. -/
def afterRenew (world : World) (handle : Handle) (sessionToken : Nat) (input : Input) :
    Bool × World :=
  match world.lease with
  | none => (false, world)
  | some lease =>
      if lease.handle.map (·.serial) ≠ some handle.serial then (false, world)
      else
        match input.renewal with
        | .ok => (true, world.setHandle lease.handle 0)
        | .failed authorityLost =>
            let failures := lease.failures + 1
            let expired := handle.leaseExpiresMs.any (· ≤ input.now)
            if authorityLost || expired || failures ≥ lease.renewFailureLimit then
              (false, world.markLost sessionToken input.transportsStop)
            else (true, world.setHandle lease.handle failures)

/-- A failed session is reconciled, any other one stopped. -/
def stopEvent (phase : AppPhase) : LifecycleEvent :=
  if phase = .failed then .reconcileRequested else .stopRequested

/-- The part of `stop` before its first `await`. -/
def stopBegin (world : World) (input : Input) : StopBegin × World :=
  match world.lifecycle with
  | none => (.alreadyStopped, world)
  | some snapshot =>
      if world.stopCalled then (.joined, world)
      else
        let (outcome, stopping) := world.dispatch (stopEvent snapshot.phase)
        let phase := (stopping.lifecycle.map (·.phase)).getD .stopped
        if outcome = some .stuttered ∧ phase = .stopped then (.alreadyStopped, stopping)
        else if outcome ≠ some .applied then (.rejected phase, stopping)
        else
          let stopToken := stopping.lifecycle.bind (·.activeToken)
          if input.transportsStop then
            (.releasing stopToken, { stopping.setHandle none 0 with stopCalled := true })
          else (.transportsFailed stopToken, { stopping with stopCalled := true })

/-- The two worlds differ at most in the lifecycle and the lease. -/
structure SameClient (before after : World) : Prop where
  store : after.store = before.store
  clock : after.clock = before.clock
  queued : after.queued = before.queued
  adopted : after.adopted = before.adopted
  handed : after.handed = before.handed
  requests : after.requests = before.requests

theorem SameClient.refl (world : World) : SameClient world world :=
  ⟨rfl, rfl, rfl, rfl, rfl, rfl⟩

theorem SameClient.trans {a b c : World} (hab : SameClient a b) (hbc : SameClient b c) :
    SameClient a c :=
  ⟨hbc.store.trans hab.store, hbc.clock.trans hab.clock, hbc.queued.trans hab.queued,
    hbc.adopted.trans hab.adopted, hbc.handed.trans hab.handed,
    hbc.requests.trans hab.requests⟩

theorem dispatch_sameClient (world : World) (event : LifecycleEvent) :
    SameClient world (world.dispatch event).2 := by
  unfold dispatch
  split <;> exact ⟨rfl, rfl, rfl, rfl, rfl, rfl⟩

theorem setHandle_sameClient (world : World) (handle : Option Handle) (failures : Nat) :
    SameClient world (world.setHandle handle failures) :=
  ⟨rfl, rfl, rfl, rfl, rfl, rfl⟩

theorem acquire_sameClient (world : World) (grant : Option (Nat × Option Nat)) :
    SameClient world (world.acquire grant).2 := by
  cases grant <;> exact ⟨rfl, rfl, rfl, rfl, rfl, rfl⟩

theorem markLost_sameClient (world : World) (sessionToken : Nat) (transportsStop : Bool) :
    SameClient world (world.markLost sessionToken transportsStop) := by
  unfold markLost
  dsimp only
  split
  · exact (setHandle_sameClient _ _ _).trans (dispatch_sameClient _ _)
  · exact setHandle_sameClient _ _ _

theorem afterRenew_sameClient (world : World) (handle : Handle) (sessionToken : Nat)
    (input : Input) : SameClient world (world.afterRenew handle sessionToken input).2 := by
  unfold afterRenew
  split
  · exact .refl _
  · split
    · exact .refl _
    · split
      · exact setHandle_sameClient _ _ _
      · dsimp only
        split
        · exact markLost_sameClient _ _ _
        · exact setHandle_sameClient _ _ _

theorem stopBegin_sameClient (world : World) (input : Input) :
    SameClient world (world.stopBegin input).2 := by
  unfold stopBegin
  split
  · exact .refl _
  · rename_i snapshot _
    have hdispatch := dispatch_sameClient world (stopEvent snapshot.phase)
    split
    · exact .refl _
    · dsimp only
      split
      · exact hdispatch
      · split
        · exact hdispatch
        · split
          · exact hdispatch.trans ⟨rfl, rfl, rfl, rfl, rfl, rfl⟩
          · exact hdispatch.trans ⟨rfl, rfl, rfl, rfl, rfl, rfl⟩

end World

def SettleOptions.ofEntry (entry : QueueEntry) (committedVersion : Option Hlc)
    (now : Nat) : SettleOptions :=
  { table := entry.table, id := entry.id, seq := entry.seq, writeKey := entry.key,
    baseVersion := entry.baseVersion,
    committedVersion := committedVersion.getD entry.baseVersion, atMs := now }

def perform : (action : Action) → Input → World → action.Reply × World
  | .requireCapability capability, _, world => (world.refusal capability, world)
  | .observe remote, input, world =>
      ((), { world with clock := observe world.clock remote input.now })
  | .tick _ _, input, world =>
      let clock := tick world.clock input.now
      (clock.stamp, { world with clock := clock })
  | .nextKey, input, world =>
      (nextKey world.clock.actor input.now world.keySeq,
        { world with keySeq := world.keySeq + 1 })
  | .dateNow, input, world => (input.now, world)
  | .getRow table id, _, world => (world.store.getRow table id, world)
  | .putRow table id row rowMeta, _, world => ((), world.putRow table id row rowMeta)
  | .removeRow table id rowMeta, _, world => ((), world.removeRow table id rowMeta)
  | .enqueue write, _, world =>
      let (reply, store) := world.store.enqueue write
      (reply, { world with store := store, queued := world.queued ++ [write] })
  | .pending, _, world => (world.store.pending, world)
  | .retire seq, _, world => ((), { world with store := world.store.retire seq })
  | .settleAck options, _, world => world.settle options
  | .handOff change, _, world => ((), { world with handed := world.handed ++ [change] })
  | .handOffEntry entry, _, world =>
      let change := (world.store.deref entry).change
      (change, { world with handed := world.handed ++ [change] })
  | .settleEntry entry committedVersion, input, world =>
      world.settle (.ofEntry (world.store.deref entry) committedVersion input.now)
  | .response, input, world => (input.response, world)
  | .token, input, world => (input.tokenOk, world)
  | .fetch change, _, world =>
      ((), { world with
        requests := world.requests ++
          [{ change := change, fence := world.getFence, held := world.held }] })
  | .dispatch event, _, world => world.dispatch event
  | .lock, input, world => world.acquire input.grant
  | .renew, input, world => (input.renewal, world)
  | .afterRenew handle sessionToken, input, world =>
      world.afterRenew handle sessionToken input
  | .readHandle, _, world => (world.lease.bind (·.handle), world)
  | .stopBegin, input, world => world.stopBegin input
  | .releaseLease, _, world => ((), world.setHandle none 0)
  | .settled, _, world => ((), world)
  | .newClient newProcess, _, world =>
      ((), { world with
        clock := Clock.fresh world.clock.actor
        keySeq := if newProcess then 0 else world.keySeq })

/-- The row an action puts into the store: its table and id, and what is stored. -/
def Action.puts : Action → Option (String × String × StoredRow)
  | .putRow table id row rowMeta => some (table, id, { row := row, rowMeta := rowMeta })
  | .removeRow table id rowMeta => some (table, id, { row := none, rowMeta := rowMeta })
  | _ => none

theorem perform_puts {action : Action} {table id : String} {stored : StoredRow}
    (h : action.puts = some (table, id, stored)) (input : Input) (world : World) :
    (perform action input world).2.store = world.store.setRow table id stored ∧
      (perform action input world).2.adopted = world.adopted ++
        if stored.rowMeta.dirty then [] else [(rowKey table id, stored.rowMeta.version)] := by
  cases action <;> simp only [Action.puts, Option.some.injEq, Prod.mk.injEq, reduceCtorEq] at h
  all_goals
    obtain ⟨rfl, rfl, rfl⟩ := h
    exact ⟨rfl, rfl⟩

/-- The actions of the session around the client. -/
def Action.ofSession : Action → Prop
  | .dispatch _ | .lock | .renew | .afterRenew _ _ | .readHandle | .stopBegin | .releaseLease
  | .settled => True
  | _ => False

theorem Action.ofSession.sameClient {action : Action} (h : action.ofSession) (input : Input)
    (world : World) : World.SameClient world (Js.perform action input world).2 := by
  cases action with
  | dispatch event => exact world.dispatch_sameClient event
  | lock => exact world.acquire_sameClient input.grant
  | afterRenew handle sessionToken => exact world.afterRenew_sameClient handle sessionToken input
  | stopBegin => exact world.stopBegin_sameClient input
  | releaseLease => exact world.setHandle_sameClient _ _
  | renew | readHandle | settled => exact .refl _
  | _ => exact h.elim

theorem perform_adopted {action : Action} (h : action.puts = none) (input : Input)
    (world : World) : (perform action input world).2.adopted = world.adopted := by
  cases action with
  | putRow table id row rowMeta => cases h
  | removeRow table id rowMeta => cases h
  | dispatch _ | lock | renew | afterRenew _ _ | readHandle | stopBegin | releaseLease
  | settled => exact (Action.ofSession.sameClient (by trivial) input world).adopted
  | _ => rfl

/-- Only a put lowers the version of a row, and no action forgets one. -/
theorem perform_rows {action : Action} (hputs : action.puts = none) (input : Input)
    (world : World) {key : String} {stored : StoredRow}
    (h : world.store.rows key = some stored) :
    ∃ later, (perform action input world).2.store.rows key = some later ∧
      stored.rowMeta.version ≤ later.rowMeta.version := by
  cases action with
  | settleAck options => exact world.store.settleAck_raises options h
  | settleEntry entry committedVersion => exact world.store.settleAck_raises _ h
  | putRow table id row rowMeta => cases hputs
  | removeRow table id rowMeta => cases hputs
  | enqueue write => exact ⟨stored, by simpa [perform] using h, le_rfl⟩
  | dispatch _ | lock | renew | afterRenew _ _ | readHandle | stopBegin | releaseLease
  | settled =>
      refine ⟨stored, ?_, le_rfl⟩
      rw [(Action.ofSession.sameClient (by trivial) input world).store]
      exact h
  | _ => exact ⟨stored, h, le_rfl⟩

/-- What a write puts into its row. -/
def QueuedWrite.localRow (write : QueuedWrite) : Option Json :=
  if write.op = .delete then none else write.payload

/-- The row is the write's: its payload, dirty, at its version. -/
def RowHolds (write : QueuedWrite) (world : World) : Prop :=
  ∃ stored, world.store.getRow write.table write.id = some stored ∧
    stored.row = write.localRow ∧ stored.rowMeta.version = write.baseVersion ∧
    stored.rowMeta.dirty = true

def Queued (write : QueuedWrite) (world : World) : Prop :=
  ∃ entry ∈ world.store.queue, entry.toQueuedWrite = write

/-- A write not yet acknowledged is in place: in its row, and in the queue. -/
def InPlace (write : QueuedWrite) (world : World) : Prop :=
  RowHolds write world ∧ Queued write world

/-- The actions of a JavaScript session. -/
@[reducible] def session : Async.Interface where
  World := World
  Input := Input
  noInput := {}
  Action := Action
  Reply := Action.Reply
  perform := perform

/-- Consecutive turns of one thread, answered alike. -/
def turns (thread count : Nat) (input : Input := {}) : List (Async.Pool.Turn session) :=
  List.replicate count (thread, input)

end ZedSync.Js
