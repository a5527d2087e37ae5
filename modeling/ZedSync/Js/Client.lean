import ZedSync.Js.World

/-!
`SyncClient` (`sdk/src/client.mjs`) and the HTTP sender it is given
(`sdk/src/transports/backend.mjs`). Every method is the program of its awaits.
Telemetry and `onError` only report, and are left out.
-/

namespace ZedSync.Js

open Async

/-- What `send` is: any function the caller passes, or `makeBackendSender`,
with or without a `getToken`. -/
inductive SendTransport where
  | custom
  | backend (getToken : Bool)
  deriving DecidableEq, Repr

structure ClientConfig where
  send : Option SendTransport := none
  writeMode : WriteMode := .optimisticQueue
  errorPolicy : ErrorPolicy := .emitOnly
  conflictResolution : ConflictResolution := .serverWins
  tables : Option (List String) := none
  deriving Repr, Inhabited

/-- What a method rejects with. -/
inductive ClientError where
  | lifecycle (operation : String) (phase : AppPhase)
  | noSendTransport
  | sendFailed (message : String)
  | queueOverflow (dropped : QueueEntry)
  deriving Repr

def ClientError.message : ClientError → String
  | .lifecycle operation phase =>
      "zed-sync lifecycle: cannot " ++ operation ++ " while " ++ phase.text
  | .noSendTransport => "no send transport configured"
  | .sendFailed message => message
  | .queueOverflow dropped =>
      "sync write queue overflow: dropped oldest queued write for " ++ dropped.table ++ "/" ++
        dropped.id

structure WriteOptions where
  op : Option Op := none
  merge : Bool := false
  mode : Option WriteMode := none
  errorPolicy : Option ErrorPolicy := none
  deriving Repr, Inhabited

/-- What a promise settles with: a value, or a rejection. -/
abbrev Outcome (α : Type) := Except ClientError α

def act (action : Action) : Prog session action.Reply := .call action .ret

/-- `#surface`: throws when the policy says so. -/
def surface (error : ClientError) (policy : ErrorPolicy) (otherwise : α) :
    Outcome α :=
  if policy.shouldThrow then .error error else .ok otherwise

/-- `#requireCapability`, before the rest of the method. -/
def requireCapability (capability : Capability) (operation : String)
    (body : Prog session (Outcome α)) : Prog session (Outcome α) := do
  match ← act (.requireCapability capability) with
  | some phase => return .error (.lifecycle operation phase)
  | none => body

/-- The stored row as the core sees it. -/
def StoredRow.localRow (stored : StoredRow) : LocalRow :=
  { version := stored.rowMeta.version, dirty := stored.rowMeta.dirty }

def adopt (incoming : ChangeEvent) : Prog session Unit := do
  let now ← act .dateNow
  let rowMeta : RowMeta :=
    { version := incoming.version, dirty := false, syncedAtMs := some now }
  if incoming.op = .delete then
    act (.removeRow incoming.table incoming.id rowMeta)
  else
    act (.putRow incoming.table incoming.id incoming.row rowMeta)

/-- The loop of `#dropQueuedFor` over the entries still ahead. -/
def retireEach (table id : String) : List QueueEntry → Prog session Unit
  | [] => return ()
  | entry :: rest => do
      if entry.sameRow table id then act (.retire entry.seq)
      retireEach table id rest

def dropQueuedFor (table id : String) : Prog session Unit := do
  retireEach table id (← act .pending)

/-- Adopt, then answer. -/
def adoptAs (incoming : ChangeEvent) (outcome : ChangeOutcome) :
    Prog session (Outcome ChangeOutcome) := do
  adopt incoming
  return .ok outcome

/-- Server-wins: adopt, and drop any queued writes for the row. -/
def adoptOverQueued (incoming : ChangeEvent) : Prog session (Outcome ChangeOutcome) := do
  adopt incoming
  dropQueuedFor incoming.table incoming.id
  return .ok .conflictResolved

/-- `applyChange` from the decision on. -/
def applyDecision (config : ClientConfig) (incoming : ChangeEvent)
    (existing : Option StoredRow) : Prog session (Outcome ChangeOutcome) :=
  match existing, reconcile (existing.map StoredRow.localRow) incoming with
  | _, .apply => adoptAs incoming .applied
  | some stored, .conflict =>
      if resolveConflict config.conflictResolution stored.localRow incoming then
        adoptOverQueued incoming
      else return .ok .ignored
  | some stored, .ignore .alreadyApplied =>
      if !stored.rowMeta.dirty then adoptAs incoming .refreshed
      else return .ok .ignored
  | _, _ => return .ok .ignored

/-- Whether the allowlist lets a change for the table in. -/
def ClientConfig.allows (config : ClientConfig) (table : String) : Bool :=
  config.tables.all (·.contains table)

/-- The allowlist is checked before the stamp is folded into the clock. -/
def applyChange (config : ClientConfig) (incoming : ChangeEvent) :
    Prog session (Outcome ChangeOutcome) :=
  requireCapability .canReceiveChanges "receive changes" do
    if !config.allows incoming.table then return .ok .ignored
    else
      act (.observe incoming.version)
      let existing ← act (.getRow incoming.table incoming.id)
      applyDecision config incoming existing

/-- `hydrate`: the changes one after another, up to the first that throws. -/
def hydrate (config : ClientConfig) : List ChangeEvent → Prog session (Outcome Unit)
  | [] => return .ok ()
  | change :: rest => do
      match ← applyChange config change with
      | .error error => return .error error
      | .ok _ => hydrate config rest

/-- What `send` does with a change already handed to it. The fence is read
after the token, in the same turn as the request is issued. -/
def transmit (transport : SendTransport) (change : ChangeEvent) :
    Prog session (Outcome (Option Hlc)) := do
  match transport with
  | .custom => awaitResponse
  | .backend getToken =>
      if getToken then
        if ← act .token then
          act (.fetch change)
          awaitResponse
        else return .error (.sendFailed "getToken rejected")
      else
        act (.fetch change)
        awaitResponse
where
  awaitResponse : Prog session (Outcome (Option Hlc)) := do
    match ← act .response with
    | .failed message => return .error (.sendFailed message)
    | .ok committedVersion => return .ok committedVersion

/-- `#doSend`. -/
def doSend (config : ClientConfig) (change : ChangeEvent) :
    Prog session (Outcome (Option Hlc)) := do
  match config.send with
  | none => return .error .noSendTransport
  | some transport =>
      act (.handOff change)
      transmit transport change

/-- `#settleAck`. -/
def settleAck (write : QueuedWrite) (seq : Nat) (committedVersion : Option Hlc) :
    Prog session (Bool × Bool) := do
  let now ← act .dateNow
  act (.settleAck (.ofEntry (write.atSeq seq) committedVersion now))

/-- `server_first` and `server_only`: send before, or without, any local change. -/
def writeThroughServer (config : ClientConfig) (change : ChangeEvent) (mode : WriteMode)
    (policy : ErrorPolicy) : Prog session (Outcome WriteResult) := do
  match ← doSend config change with
  | .error error => return surface error policy { status := .failed, version := change.version }
  | .ok committedVersion =>
      let version := committedVersion.getD change.version
      if mode = .serverFirst then
        let now ← act .dateNow
        act (.putRow change.table change.id change.row
          { version := version, dirty := false, syncedAtMs := some now })
      return .ok { status := .acked, version := version }

/-- The end of an optimistic write: send now, and settle the ack. -/
def sendQueued (config : ClientConfig) (write : QueuedWrite) (seq : Nat) (mode : WriteMode)
    (policy : ErrorPolicy) : Prog session (Outcome WriteResult) := do
  match ← doSend config (write.atSeq seq).change with
  | .ok committedVersion =>
      let _ ← settleAck write seq committedVersion
      return .ok { status := .acked, version := committedVersion.getD write.baseVersion }
  | .error error =>
      let queued : WriteResult := { status := .queued, version := write.baseVersion }
      return if mode = .optimisticAwaitAck then surface error policy queued else .ok queued

/-- The optimistic write from the enqueue on. A dropped entry goes through the
client's own error policy. -/
def queueAndSend (config : ClientConfig) (write : QueuedWrite) (mode : WriteMode)
    (policy : ErrorPolicy) : Prog session (Outcome WriteResult) := do
  let (seq, dropped) ← act (.enqueue write)
  match dropped.filter fun _ => config.errorPolicy.shouldThrow with
  | some dropped => return .error (.queueOverflow dropped)
  | none =>
      if mode = .localOnly then
        return .ok { status := .localWrite, version := write.baseVersion }
      else sendQueued config write seq mode policy

/-- The payload a write stores: an upsert that merges onto a truthy stored row
patches it, any other write replaces it. -/
def mergedRow (op : Op) (merge : Bool) (existing : Option StoredRow) (row : Option Json) :
    Option Json :=
  match existing.bind (·.row) with
  | some base => if op = .upsert ∧ merge ∧ base.truthy then row.map (deepMerge base) else row
  | none => row

/-- The optimistic write from the row it read on: apply locally, then queue. -/
def writeLocally (config : ClientConfig) (write : QueuedWrite) (merge : Bool)
    (mode : WriteMode) (policy : ErrorPolicy) (existing : Option StoredRow) :
    Prog session (Outcome WriteResult) := do
  let stored := mergedRow write.op merge existing write.payload
  let rowMeta : RowMeta :=
    { version := write.baseVersion, dirty := true,
      syncedAtMs := existing.bind (·.rowMeta.syncedAtMs) }
  if write.op = .delete then
    act (.removeRow write.table write.id rowMeta)
  else
    act (.putRow write.table write.id stored rowMeta)
  queueAndSend config { write with payload := stored } mode policy

def WriteOptions.resolveOp (options : WriteOptions) (row : Option Json) : Op :=
  options.op.getD (if row.isNone then .delete else .upsert)

/-- `write` once its stamp and key are minted. -/
def writeStamped (config : ClientConfig) (write : QueuedWrite) (merge : Bool)
    (mode : WriteMode) (policy : ErrorPolicy) : Prog session (Outcome WriteResult) := do
  if mode = .serverFirst ∨ mode = .serverOnly then
    writeThroughServer config (write.atSeq 0).change mode policy
  else
    let existing ← act (.getRow write.table write.id)
    writeLocally config write merge mode policy existing

def write (config : ClientConfig) (table id : String) (row : Option Json)
    (options : WriteOptions) : Prog session (Outcome WriteResult) :=
  requireCapability .canWrite "write" do
    let op := options.resolveOp row
    let mode := options.mode.getD config.writeMode
    let policy := options.errorPolicy.getD config.errorPolicy
    let version ← act (.tick table id)
    let key ← act .nextKey
    writeStamped config
      { table := table, id := id, op := op, payload := row, baseVersion := version, key := key }
      options.merge mode policy

/-- Delete convenience. -/
def delete (config : ClientConfig) (table id : String) (options : WriteOptions) :
    Prog session (Outcome WriteResult) :=
  write config table id none { options with op := some .delete }

/-- The loop of `flushQueue` over the entries still ahead: it stops at the first
failure. The fields of an entry are read as the store shares them, at the
hand-off and again at the settlement. -/
def flushEach (config : ClientConfig) (policy : ErrorPolicy) (sent : Nat) :
    List QueueEntry → Prog session (Outcome Nat)
  | [] => return .ok sent
  | entry :: rest => do
      match ← sendEntry entry with
      | .error error => return surface error policy sent
      | .ok committedVersion =>
          let _ ← act (.settleEntry entry committedVersion)
          flushEach config policy (sent + 1) rest
where
  sendEntry (entry : QueueEntry) : Prog session (Outcome (Option Hlc)) := do
    match config.send with
    | none => return .error .noSendTransport
    | some transport =>
        let change ← act (.handOffEntry entry)
        transmit transport change

def flushQueue (config : ClientConfig) (policy : ErrorPolicy) : Prog session (Outcome Nat) :=
  requireCapability .canWrite "flush" do
    flushEach config policy 0 (← act .pending)

/-- The actions a delivery of `incoming` is made of: its only puts are clean,
on its own row, at its own version. -/
def Action.Delivers (incoming : ChangeEvent) (action : Action) : Prop :=
  (∃ stored, action.puts = some (incoming.table, incoming.id, stored) ∧
    stored.rowMeta.version = incoming.version ∧ stored.rowMeta.dirty = false) ∨
  match action with
  | .requireCapability _ | .observe _ | .getRow _ _ | .dateNow | .pending | .retire _ => True
  | _ => False

/-- The actions of a delivery beside its put. -/
def Action.Decides : Action → Prop
  | .requireCapability _ | .observe _ | .getRow _ _ | .dateNow | .pending | .retire _ => True
  | _ => False

/-- What a delivery puts: the image of the change at its version, clean. -/
def Action.Adopts (incoming : ChangeEvent) (action : Action) : Prop :=
  ∃ stored, action.puts = some (incoming.table, incoming.id, stored) ∧
    stored.row = incoming.live ∧ stored.rowMeta.version = incoming.version ∧
    stored.rowMeta.dirty = false

section Only

variable {allowed : Action → Prop}

theorem adopt_only (incoming : ChangeEvent) (hdecides : ∀ action, action.Decides → allowed action)
    (hadopts : ∀ action, action.Adopts incoming → allowed action) :
    (adopt incoming).Only allowed := by
  refine ⟨hdecides .dateNow trivial, fun now => ?_⟩
  dsimp only
  split
  · rename_i hdelete
    exact ⟨hadopts _ ⟨_, rfl, by simp [ChangeEvent.live, hdelete], rfl, rfl⟩, fun _ => trivial⟩
  · rename_i hupsert
    exact ⟨hadopts _ ⟨_, rfl, by simp [ChangeEvent.live, hupsert], rfl, rfl⟩, fun _ => trivial⟩

theorem retireEach_only (table id : String) (entries : List QueueEntry)
    (hdecides : ∀ action, action.Decides → allowed action) :
    (retireEach table id entries).Only allowed := by
  induction entries with
  | nil => trivial
  | cons entry rest ih =>
      simp only [retireEach]
      split
      · exact ⟨hdecides (.retire entry.seq) trivial, fun _ => ih⟩
      · exact ih

theorem applyDecision_only (config : ClientConfig) (incoming : ChangeEvent)
    (existing : Option StoredRow) (hdecides : ∀ action, action.Decides → allowed action)
    (hadopts : ∀ action, action.Adopts incoming → allowed action) :
    (applyDecision config incoming existing).Only allowed := by
  have hadopt := adopt_only incoming hdecides hadopts
  have hadoptAs : ∀ outcome, (adoptAs incoming outcome).Only allowed :=
    fun _ => hadopt.bind fun _ => trivial
  unfold applyDecision
  split
  · exact hadoptAs _
  · split
    · refine hadopt.bind fun _ => Prog.Only.bind ?_ fun _ => trivial
      exact ⟨hdecides .pending trivial, fun entries => retireEach_only _ _ entries hdecides⟩
    · trivial
  · split
    · exact hadoptAs _
    · trivial
  · trivial

/-- A delivery reads, decides and retires, and puts the image of its change. -/
theorem applyChange_only (config : ClientConfig) (incoming : ChangeEvent)
    (hdecides : ∀ action, action.Decides → allowed action)
    (hadopts : ∀ action, action.Adopts incoming → allowed action) :
    (applyChange config incoming).Only allowed := by
  refine ⟨hdecides (.requireCapability _) trivial, fun refusal => ?_⟩
  cases refusal with
  | some phase => trivial
  | none =>
      dsimp only
      split
      · trivial
      · refine ⟨hdecides (.observe _) trivial, fun _ =>
          ⟨hdecides (.getRow _ _) trivial, fun existing => ?_⟩⟩
        exact applyDecision_only config incoming existing hdecides hadopts

end Only

theorem applyChange_delivers (config : ClientConfig) (incoming : ChangeEvent) :
    (applyChange config incoming).Only (Action.Delivers incoming) := by
  apply applyChange_only
  · intro action hdecides
    right
    cases action <;> first | exact hdecides.elim | trivial
  · rintro action ⟨stored, hputs, -, hversion, hclean⟩
    exact Or.inl ⟨stored, hputs, hversion, hclean⟩

/-- The actions of a transmission: they touch neither the store nor the clock,
and hand nothing over. -/
def Action.Transmits : Action → Prop
  | .response | .token | .fetch _ => True
  | _ => False

/-- The actions of a send: a hand-off and its transmission. -/
def Action.Sends : Action → Prop
  | .handOff _ | .handOffEntry _ | .response | .token | .fetch _ => True
  | _ => False

theorem Action.Transmits.sends {action : Action} (h : action.Transmits) : action.Sends := by
  cases action <;> first | exact h | exact h.elim

theorem transmit_only (transport : SendTransport) (change : ChangeEvent) :
    (transmit transport change).Only Action.Transmits := by
  have hresponse : transmit.awaitResponse.Only Action.Transmits :=
    ⟨trivial, fun response => by cases response <;> trivial⟩
  cases transport with
  | custom => exact hresponse
  | backend getToken =>
      cases getToken with
      | false => exact ⟨trivial, fun _ => hresponse⟩
      | true =>
          refine ⟨trivial, fun tokenOk => ?_⟩
          cases tokenOk with
          | false => trivial
          | true => exact ⟨trivial, fun _ => hresponse⟩

theorem doSend_only (config : ClientConfig) (change : ChangeEvent) :
    (doSend config change).Only Action.Sends := by
  unfold doSend
  split
  · trivial
  · exact ⟨trivial, fun _ => (transmit_only _ _).mono fun _ => Action.Transmits.sends⟩

theorem Action.Sends.store {action : Action} (h : action.Sends) (input : Input)
    (world : World) : (perform action input world).2.store = world.store := by
  cases action <;> first | rfl | exact h.elim

theorem Action.Sends.queued {action : Action} (h : action.Sends) (input : Input)
    (world : World) : (perform action input world).2.queued = world.queued := by
  cases action <;> first | rfl | exact h.elim

/-- An action of the client that puts nothing dirty. -/
structure Action.PutsClean (action : Action) : Prop where
  clean : ∀ table id stored, action.puts = some (table, id, stored) →
    stored.rowMeta.dirty = false
  client : ¬ action.ofSession

theorem putsClean_of_none {action : Action} (h : action.puts = none)
    (hclient : ¬ action.ofSession) : action.PutsClean := by
  refine ⟨fun table id stored hputs => ?_, hclient⟩
  rw [h] at hputs
  cases hputs

theorem Action.Delivers.putsClean {incoming : ChangeEvent} {action : Action}
    (h : action.Delivers incoming) : action.PutsClean := by
  rcases h with ⟨delivered, hdelivered, _, hclean⟩ | hother
  · refine ⟨fun table id stored hputs => ?_, fun hsession => ?_⟩
    · rw [hdelivered] at hputs
      obtain ⟨-, -, rfl⟩ := by simpa using hputs
      exact hclean
    · cases action <;> first | exact hsession | cases hdelivered
  · cases action <;> first | exact hother.elim | exact putsClean_of_none rfl id

theorem Action.Sends.putsClean {action : Action} (h : action.Sends) : action.PutsClean := by
  cases action <;> first | exact h.elim | exact putsClean_of_none rfl id

theorem sendQueued_putsClean (config : ClientConfig) (write : QueuedWrite) (seq : Nat)
    (mode : WriteMode) (policy : ErrorPolicy) :
    (sendQueued config write seq mode policy).Only Action.PutsClean := by
  refine Prog.Only.bind ((doSend_only _ _).mono fun _ => Action.Sends.putsClean) fun reply => ?_
  cases reply with
  | error error => trivial
  | ok committedVersion =>
      exact ⟨putsClean_of_none rfl id, fun _ => ⟨putsClean_of_none rfl id, fun _ => trivial⟩⟩

theorem queueAndSend_putsClean (config : ClientConfig) (write : QueuedWrite)
    (mode : WriteMode) (policy : ErrorPolicy) :
    (queueAndSend config write mode policy).Only Action.PutsClean := by
  simp only [queueAndSend, act, Prog.call_bind, Prog.ret_bind]
  refine ⟨putsClean_of_none rfl id, fun reply => ?_⟩
  obtain ⟨seq, dropped⟩ := reply
  dsimp only
  cases dropped.filter fun _ => config.errorPolicy.shouldThrow with
  | some dropped => trivial
  | none =>
      dsimp only
      split
      · trivial
      · exact sendQueued_putsClean _ _ _ _ _

theorem writeThroughServer_putsClean (config : ClientConfig) (change : ChangeEvent)
    (mode : WriteMode) (policy : ErrorPolicy) :
    (writeThroughServer config change mode policy).Only Action.PutsClean := by
  refine Prog.Only.bind ((doSend_only _ _).mono fun _ => Action.Sends.putsClean) fun reply => ?_
  cases reply with
  | error error => trivial
  | ok committedVersion =>
      dsimp only
      split
      · refine ⟨putsClean_of_none rfl id, fun now => ⟨?_, fun _ => trivial⟩⟩
        refine ⟨?_, id⟩
        rintro table id stored ⟨⟩
        rfl
      · trivial

theorem flushEach_putsClean (config : ClientConfig) (policy : ErrorPolicy) (sent : Nat)
    (entries : List QueueEntry) :
    (flushEach config policy sent entries).Only Action.PutsClean := by
  induction entries generalizing sent with
  | nil => trivial
  | cons entry rest ih =>
      unfold flushEach
      refine Prog.Only.bind ?_ fun reply => ?_
      · unfold flushEach.sendEntry
        split
        · trivial
        · refine ⟨putsClean_of_none rfl id, fun _ => ?_⟩
          exact (transmit_only _ _).mono fun _ h => h.sends.putsClean
      · cases reply with
        | error error => trivial
        | ok committedVersion => exact ⟨putsClean_of_none rfl id, fun _ => ih _⟩

theorem flushQueue_putsClean (config : ClientConfig) (policy : ErrorPolicy) :
    (flushQueue config policy).Only Action.PutsClean := by
  refine ⟨putsClean_of_none rfl id, fun refusal => ?_⟩
  cases refusal with
  | some phase => trivial
  | none => exact ⟨putsClean_of_none rfl id, fun entries => flushEach_putsClean _ _ _ _⟩

theorem hydrate_putsClean (config : ClientConfig) (changes : List ChangeEvent) :
    (hydrate config changes).Only Action.PutsClean := by
  induction changes with
  | nil => trivial
  | cons change rest ih =>
      unfold hydrate
      refine ((applyChange_delivers config change).mono fun _ => Action.Delivers.putsClean).bind
        fun reply => ?_
      cases reply with
      | error error => trivial
      | ok outcome => exact ih

/-- The calls an application and the transports make on one client, and its
replacement by a new one over the same store. The key counter belongs to the
module, so only a new process starts it again. -/
inductive Call where
  | applyChange (incoming : ChangeEvent)
  | hydrate (changes : List ChangeEvent)
  | write (table id : String) (row : Option Json) (options : WriteOptions)
  | flushQueue (policy : ErrorPolicy)
  | newClient (newProcess : Bool)
  deriving Repr

inductive CallResult where
  | changed (outcome : ChangeOutcome)
  | hydrated
  | wrote (result : WriteResult)
  | flushed (sent : Nat)
  | started
  deriving DecidableEq, Repr

/-- The program of a call. -/
def Call.program (config : ClientConfig) : Call → Prog session (Outcome CallResult)
  | .applyChange incoming => do return (← Js.applyChange config incoming).map .changed
  | .hydrate changes => do return (← Js.hydrate config changes).map fun _ => .hydrated
  | .write table id row options => do
      return (← Js.write config table id row options).map .wrote
  | .flushQueue policy => do return (← Js.flushQueue config policy).map .flushed
  | .newClient newProcess => do
      act (.newClient newProcess)
      return .ok .started

/-- A call touches nothing of the session around the client. -/
theorem Call.program_client (config : ClientConfig) (call : Call) :
    (call.program config).Only fun action : Action => ¬ action.ofSession := by
  cases call with
  | applyChange incoming =>
      refine Prog.Only.bind ?_ fun _ => trivial
      exact (applyChange_delivers config incoming).mono fun _ h => h.putsClean.client
  | hydrate changes =>
      refine Prog.Only.bind ?_ fun _ => trivial
      exact (hydrate_putsClean config changes).mono fun _ => Action.PutsClean.client
  | write table rowId row options =>
      refine Prog.Only.bind ?_ fun _ => trivial
      refine ⟨id, fun refusal => ?_⟩
      cases refusal with
      | some phase => trivial
      | none =>
          refine ⟨id, fun version => ⟨id, fun key => ?_⟩⟩
          unfold writeStamped
          split
          · exact (writeThroughServer_putsClean _ _ _ _).mono fun _ => Action.PutsClean.client
          · refine ⟨id, fun existing => ?_⟩
            have hqueue : ∀ queued, (queueAndSend config queued
                (options.mode.getD config.writeMode)
                (options.errorPolicy.getD config.errorPolicy)).Only
                  fun action : Action => ¬ action.ofSession :=
              fun queued => (queueAndSend_putsClean _ _ _ _).mono fun _ => Action.PutsClean.client
            unfold writeLocally
            dsimp only
            split
            · exact ⟨id, fun _ => hqueue _⟩
            · exact ⟨id, fun _ => hqueue _⟩
  | flushQueue policy =>
      refine Prog.Only.bind ?_ fun _ => trivial
      exact (flushQueue_putsClean config policy).mono fun _ => Action.PutsClean.client
  | newClient newProcess => exact ⟨id, fun _ => trivial⟩

end ZedSync.Js
