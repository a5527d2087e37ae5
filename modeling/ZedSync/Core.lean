import ZedSync.Hlc
import ZedSync.Json

/-!
The reconciliation core in its three ports: `src/lib.rs`,
`sdk/src/core.mjs` and `dart/zed_sync/lib/src/core.dart`. Each port keeps its
own functions here, so that they can be compared; the data they share is
declared once.
-/

namespace ZedSync

inductive Op where
  | upsert
  | delete
  deriving DecidableEq, Repr, Inhabited

/-- How optimistically a single write is applied. -/
inductive WriteMode where
  | localOnly
  | optimisticQueue
  | optimisticAwaitAck
  | serverFirst
  | serverOnly
  deriving DecidableEq, Repr, Inhabited

/-- How write and flush errors are surfaced. -/
inductive ErrorPolicy where
  | throwOnly
  | emitOnly
  | throwAndEmit
  | silent
  deriving DecidableEq, Repr, Inhabited

def ErrorPolicy.shouldThrow : ErrorPolicy → Bool
  | .throwOnly | .throwAndEmit => true
  | .emitOnly | .silent => false

/-- How a dirty row meeting a newer remote change resolves. -/
inductive ConflictResolution where
  | serverWins
  | lastWriteWins
  deriving DecidableEq, Repr, Inhabited

/-- The wire envelope. `at_ms` and `sync_sequence` are carried for display and
for the catch-up cursor; no decision reads them. -/
structure ChangeEvent where
  table : String
  op : Op
  id : String
  version : Hlc
  row : Option Json
  writeKey : Option String
  deriving Repr, Inhabited

/-- What a change shows in its row: nothing for a delete. -/
def ChangeEvent.live (change : ChangeEvent) : Option Json :=
  if change.op = .delete then none else change.row

structure LocalRow where
  version : Hlc
  dirty : Bool
  deriving DecidableEq, Repr

inductive IgnoreReason where
  | stale
  | alreadyApplied
  deriving DecidableEq, Repr

inductive Reconcile where
  | apply
  | ignore (reason : IgnoreReason)
  | conflict
  deriving DecidableEq, Repr

/-- The HTTP ack for a queued write: the version the backend committed it at. -/
structure WriteAck where
  id : String
  committedVersion : Hlc
  deriving DecidableEq, Repr

inductive AckOutcome where
  | adopt (version : Hlc)
  | superseded
  deriving DecidableEq, Repr

structure QueuedAckSettlement where
  adopt : Option Hlc
  retireCurrentSlot : Bool
  deriving DecidableEq, Repr

/-- How a client answers a change. -/
inductive ChangeOutcome where
  | applied
  | ignored
  | conflictResolved
  | refreshed
  deriving DecidableEq, Repr

inductive WriteStatus where
  | acked
  | queued
  | localWrite
  | failed
  deriving DecidableEq, Repr

/-- The outcome of a write, and the version it stands at. -/
structure WriteResult where
  status : WriteStatus
  version : Hlc
  deriving DecidableEq, Repr

namespace Rust

structure QueuedWrite where
  table : String
  id : String
  op : Op
  baseVersion : Hlc
  key : String
  deriving DecidableEq, Repr

def reconcile (localRow : Option LocalRow) (incoming : ChangeEvent) : Reconcile :=
  match localRow with
  | none =>
      match incoming.op with
      | .upsert => .apply
      | .delete => .ignore .alreadyApplied
  | some localRow =>
      match cmp incoming.version localRow.version with
      | .lt => .ignore .stale
      | .eq => .ignore .alreadyApplied
      | .gt => if localRow.dirty then .conflict else .apply

/-- `on_ack`. -/
def onAck (localRow : LocalRow) (ack : WriteAck) : AckOutcome :=
  if cmp localRow.version ack.committedVersion = .gt then .superseded
  else .adopt ack.committedVersion

/-- `settle_queued_ack`. -/
def settleQueuedAck (localRow : LocalRow) (current : QueuedWrite) (settlingKey : String)
    (baseVersion : Hlc) (ack : WriteAck) : QueuedAckSettlement :=
  let exactSlot := current.id == ack.id && current.key == settlingKey
  let adopt :=
    if exactSlot && localRow.version == baseVersion then
      match onAck localRow ack with
      | .adopt version => some version
      | .superseded => none
    else none
  { adopt := adopt, retireCurrentSlot := adopt.isSome }

end Rust

namespace Js

/-- A queue record as `enqueue` receives it. -/
structure QueuedWrite where
  table : String
  id : String
  op : Op
  payload : Option Json
  baseVersion : Hlc
  key : String
  deriving Repr, Inhabited

def reconcile (localRow : Option LocalRow) (incoming : ChangeEvent) : Reconcile :=
  match localRow with
  | none => if incoming.op = .upsert then .apply else .ignore .alreadyApplied
  | some localRow =>
      let cmp := compareHlc incoming.version localRow.version
      if cmp < 0 then .ignore .stale
      else if cmp = 0 then .ignore .alreadyApplied
      else if localRow.dirty then .conflict else .apply

theorem reconcile_older {localRow : LocalRow} {incoming : ChangeEvent}
    (h : incoming.version < localRow.version) :
    reconcile (some localRow) incoming = .ignore .stale := by
  simp [reconcile, (compareHlc_neg_iff _ _).mpr h]

theorem reconcile_same {localRow : LocalRow} {incoming : ChangeEvent}
    (h : incoming.version = localRow.version) :
    reconcile (some localRow) incoming = .ignore .alreadyApplied := by
  simp [reconcile, (compareHlc_zero_iff _ _).mpr h]

theorem reconcile_newer {localRow : LocalRow} {incoming : ChangeEvent}
    (h : localRow.version < incoming.version) :
    reconcile (some localRow) incoming = if localRow.dirty then .conflict else .apply := by
  have hpos := (compareHlc_pos_iff _ _).mpr h
  simp [reconcile, not_lt.mpr hpos.le, hpos.ne']

theorem reconcile_conflict_iff (localRow : LocalRow) (incoming : ChangeEvent) :
    reconcile (some localRow) incoming = .conflict ↔
      localRow.dirty = true ∧ localRow.version < incoming.version := by
  rcases lt_trichotomy incoming.version localRow.version with hlt | heq | hgt
  · simp [reconcile_older hlt, hlt.not_gt]
  · simp [reconcile_same heq, heq]
  · rw [reconcile_newer hgt]
    cases localRow.dirty <;> simp [hgt]

def onAck (localRow : LocalRow) (ack : WriteAck) : AckOutcome :=
  if compareHlc localRow.version ack.committedVersion > 0 then .superseded
  else .adopt ack.committedVersion

def settleQueuedAck (localRow : LocalRow) (currentQueued : QueuedWrite)
    (settlingKey : String) (baseVersion : Hlc) (ack : WriteAck) : QueuedAckSettlement :=
  let exactSlot := currentQueued.id == ack.id && currentQueued.key == settlingKey
  if !exactSlot || compareHlc localRow.version baseVersion != 0 then
    { adopt := none, retireCurrentSlot := false }
  else
    let adopt :=
      match onAck localRow ack with
      | .superseded => none
      | .adopt version => some version
    { adopt := adopt, retireCurrentSlot := adopt.isSome }

/-- An adopted version is at or above the local one. -/
theorem settleQueuedAck_adopt_le {localRow : LocalRow} {currentQueued : QueuedWrite}
    {settlingKey : String} {baseVersion version : Hlc} {ack : WriteAck}
    (h : (settleQueuedAck localRow currentQueued settlingKey baseVersion ack).adopt =
      some version) : localRow.version ≤ version := by
  unfold settleQueuedAck at h
  dsimp only at h
  split at h
  · cases h
  · simp only [onAck] at h
    split at h
    · rename_i hsuperseded
      split at hsuperseded
      · cases h
      · cases hsuperseded
    · rename_i adopted hadopted
      split at hadopted
      · cases hadopted
      · rename_i hnot
        obtain rfl := AckOutcome.adopt.inj hadopted
        obtain rfl := Option.some.inj h
        exact not_lt.mp fun hlt => hnot ((compareHlc_pos_iff _ _).mpr hlt)

def resolveConflict (resolution : ConflictResolution) (localRow : LocalRow)
    (incoming : ChangeEvent) : Bool :=
  if resolution = .serverWins then true
  else compareHlc incoming.version localRow.version > 0

/-- A conflict is only reported for a newer change, and a newer change wins
under both resolutions. -/
theorem resolveConflict_newer (resolution : ConflictResolution) {localRow : LocalRow}
    {incoming : ChangeEvent} (h : localRow.version < incoming.version) :
    resolveConflict resolution localRow incoming = true := by
  have hpos := (compareHlc_pos_iff _ _).mpr h
  simp [resolveConflict, hpos]

end Js

namespace Dart

/-- An immutable queue record. -/
structure QueuedWrite where
  table : String
  id : String
  op : Op
  payload : Option Json
  baseVersion : Hlc
  key : String
  deriving Repr, Inhabited

def reconcile (localRow : Option LocalRow) (incoming : ChangeEvent) : Reconcile :=
  match localRow with
  | none => if incoming.op = .upsert then .apply else .ignore .alreadyApplied
  | some localRow =>
      let cmp := compareTo incoming.version localRow.version
      if cmp < 0 then .ignore .stale
      else if cmp = 0 then .ignore .alreadyApplied
      else if localRow.dirty then .conflict else .apply

/-- The adopted version, or none for "Superseded". -/
def onAck (localRow : LocalRow) (committedVersion : Hlc) : Option Hlc :=
  if compareTo localRow.version committedVersion > 0 then none else some committedVersion

def settleQueuedAck (localRow : LocalRow) (currentId currentKey settlingKey : String)
    (baseVersion : Hlc) (ackId : String) (committedVersion : Hlc) : QueuedAckSettlement :=
  let exactSlot := currentId == ackId && currentKey == settlingKey
  if !exactSlot || compareTo localRow.version baseVersion != 0 then
    { adopt := none, retireCurrentSlot := false }
  else
    let adopted := onAck localRow committedVersion
    { adopt := adopted, retireCurrentSlot := adopted.isSome }

end Dart

end ZedSync
