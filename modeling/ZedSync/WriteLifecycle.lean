import ZedSync.Agreement

/-!
The life of one queue slot as `formal/write_lifecycle.qnt` models it, and the
settlements of the three ports against its `acknowledge` action. The model has
no clocks: there an acknowledgement of the queued key always retires it. The
ports ask for more, a committed version that is not below the row's.
-/

namespace ZedSync

namespace WriteLifecycle

/-- The fields of the model's state that `acknowledge` reads or updates, over the
keys of the writes; no key is `NoKey`. -/
structure State where
  queuedKey : Option String
  inFlightKey : Option String
  localGeneration : Nat
  inFlightGeneration : Nat
  dirty : Bool
  lastSettledKey : Option String
  lastRetiredKey : Option String
  sawLateAck : Bool
  deriving DecidableEq, Repr

/-- `acknowledge`, where it is enabled. -/
def acknowledge (s : State) : Option State :=
  if s.inFlightKey = none then none
  else
    some { s with
      queuedKey := if s.queuedKey = s.inFlightKey then none else s.queuedKey
      dirty := if s.queuedKey = s.inFlightKey then false else s.dirty
      inFlightKey := none
      inFlightGeneration := 0
      lastSettledKey := s.inFlightKey
      lastRetiredKey := if s.queuedKey = s.inFlightKey then s.inFlightKey else none
      sawLateAck := s.sawLateAck || s.inFlightGeneration < s.localGeneration }

/-- What a client shows of the slot. -/
structure Slot where
  queuedKey : Option String
  dirty : Bool
  deriving DecidableEq, Repr

def State.slot (s : State) : Slot := { queuedKey := s.queuedKey, dirty := s.dirty }

/-- An acknowledgement of the queued key empties the slot. -/
theorem acknowledge_exact {before after : State} {key : String}
    (hqueued : before.queuedKey = some key) (hflight : before.inFlightKey = some key)
    (h : acknowledge before = some after) :
    after.slot = { queuedKey := none, dirty := false } := by
  simp only [acknowledge, hqueued, hflight, reduceCtorEq, if_false, if_true,
    Option.some.injEq] at h
  subst h
  rfl

end WriteLifecycle

open WriteLifecycle

/-- The slot after a settlement, as the refinement replays of the ports read it. -/
def QueuedAckSettlement.slot (settlement : QueuedAckSettlement) (currentKey : String)
    (dirty : Bool) : Slot :=
  { queuedKey := if settlement.retireCurrentSlot then none else some currentKey
    dirty := if settlement.adopt.isSome then false else dirty }

/-- The settlement takes the slot where `acknowledge` takes every model state
that shows it and has the settling key in flight. -/
def Acknowledges (settlement : QueuedAckSettlement) (currentKey settlingKey : String)
    (dirty : Bool) : Prop :=
  ∀ before after, before.slot = { queuedKey := some currentKey, dirty := dirty } →
    before.inFlightKey = some settlingKey → acknowledge before = some after →
    after.slot = settlement.slot currentKey dirty

/-- An acknowledgement settles: it retires the slot, and is the model's step. -/
structure Settles (settlement : QueuedAckSettlement) (currentKey settlingKey : String)
    (dirty : Bool) : Prop where
  retires : settlement.retireCurrentSlot = true
  acknowledges : Acknowledges settlement currentKey settlingKey dirty

theorem acknowledges_of_retires {outcome : AckOutcome} {key : String} {dirty : Bool}
    (h : outcome.settlement.retireCurrentSlot = true) :
    Acknowledges outcome.settlement key key dirty := by
  intro before after hslot hflight hstep
  have hqueued : before.queuedKey = some key := congrArg Slot.queuedKey hslot
  have hadopt : outcome.settlement.adopt.isSome = true := h
  rw [acknowledge_exact hqueued hflight hstep, QueuedAckSettlement.slot, if_pos h, if_pos hadopt]

/-- An ack of the current slot settles unless it is superseded. -/
theorem settles_iff (outcome : AckOutcome) (key : String) (dirty : Bool) :
    Settles outcome.settlement key key dirty ↔ outcome ≠ .superseded := by
  cases outcome with
  | adopt version =>
      have hretires : (AckOutcome.adopt version).settlement.retireCurrentSlot = true := rfl
      exact ⟨fun _ => nofun, fun _ => ⟨hretires, acknowledges_of_retires hretires⟩⟩
  | superseded =>
      refine ⟨fun h => ?_, fun h => absurd rfl h⟩
      cases h.retires

section Ports

variable {localRow : LocalRow} {settlingKey : String} {baseVersion : ZedSync.Hlc} {ack : WriteAck}

theorem Rust.exact_ack_settles_iff {current : Rust.QueuedWrite}
    (h : ExactAck current.id current.key settlingKey localRow baseVersion ack.id) :
    Settles (Rust.settleQueuedAck localRow current settlingKey baseVersion ack) current.key
        settlingKey localRow.dirty ↔
      Rust.cmp localRow.version ack.committedVersion ≠ .gt := by
  rw [Rust.settleQueuedAck_exact h, ← h.key, settles_iff, Rust.onAck]
  split <;> simp_all

theorem Js.onAck_settles_iff (key : String) (dirty : Bool) :
    Settles (Js.onAck localRow ack).settlement key key dirty ↔
      ¬ ack.committedVersion < localRow.version := by
  rw [settles_iff, ← Js.compareHlc_pos_iff, Js.onAck]
  split <;> simp_all

theorem Js.exact_ack_settles_iff {current : Js.QueuedWrite}
    (h : ExactAck current.id current.key settlingKey localRow baseVersion ack.id) :
    Settles (Js.settleQueuedAck localRow current settlingKey baseVersion ack) current.key
        settlingKey localRow.dirty ↔
      ¬ ack.committedVersion < localRow.version := by
  rw [Js.settleQueuedAck_exact h, ← h.key, Js.onAck_settles_iff]

theorem Dart.exact_ack_settles_iff {currentId currentKey : String}
    (h : ExactAck currentId currentKey settlingKey localRow baseVersion ack.id) :
    Settles (Dart.settleQueuedAck localRow currentId currentKey settlingKey baseVersion ack.id
        ack.committedVersion) currentKey settlingKey localRow.dirty ↔
      ¬ ack.committedVersion < localRow.version := by
  rw [Dart.settleQueuedAck_exact h, ← h.key, Js.onAck_settles_iff]

end Ports

end ZedSync
