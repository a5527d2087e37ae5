import ZedSync.Js.Settlement

/-!
One row and its coalesced queue slot under any number of writes and
acknowledgements. A local write replaces the slot; the acknowledgement of any
earlier request may arrive at any time, any number of times, with any committed
version, and is settled against the slot as it is then. This is the safety of
`formal/write_lifecycle.qnt` without its bound of two writes, for the settlement
of each port.
-/

namespace ZedSync

/-- A port's queue record and its settlement. An ack that does not answer the
write in the slot settles nothing, and a slot is retired exactly when a version
is adopted. -/
structure SettlementCore where
  Write : Type
  id : Write → String
  key : Write → String
  baseVersion : Write → Hlc
  settle : LocalRow → Write → String → Hlc → WriteAck → QueuedAckSettlement
  inexact : ∀ {localRow current settlingKey base ack},
    ¬ ExactAck (id current) (key current) settlingKey localRow base ack.id →
      settle localRow current settlingKey base ack = AckOutcome.superseded.settlement
  together : ∀ localRow current settlingKey base ack,
    (settle localRow current settlingKey base ack).retireCurrentSlot =
      (settle localRow current settlingKey base ack).adopt.isSome

theorem Js.settleQueuedAck_together (localRow : LocalRow) (current : Js.QueuedWrite)
    (settlingKey : String) (baseVersion : Hlc) (ack : WriteAck) :
    (Js.settleQueuedAck localRow current settlingKey baseVersion ack).retireCurrentSlot =
      (Js.settleQueuedAck localRow current settlingKey baseVersion ack).adopt.isSome := by
  unfold Js.settleQueuedAck
  dsimp only
  split <;> rfl

theorem Dart.settleQueuedAck_inexact {localRow : LocalRow} {current : Dart.QueuedWrite}
    {settlingKey : String} {baseVersion : Hlc} {ack : WriteAck}
    (h : ¬ ExactAck current.id current.key settlingKey localRow baseVersion ack.id) :
    Dart.settleQueuedAck localRow current.id current.key settlingKey baseVersion ack.id
      ack.committedVersion = AckOutcome.superseded.settlement := by
  let twin : Js.QueuedWrite :=
    { (default : Js.QueuedWrite) with id := current.id, key := current.key }
  rw [Dart.settleQueuedAck_eq twin rfl rfl]
  exact Js.settleQueuedAck_inexact h

def Rust.settlementCore : SettlementCore where
  Write := Rust.QueuedWrite
  id := Rust.QueuedWrite.id
  key := Rust.QueuedWrite.key
  baseVersion := Rust.QueuedWrite.baseVersion
  settle := Rust.settleQueuedAck
  inexact := Rust.settleQueuedAck_inexact
  together := fun _ _ _ _ _ => rfl

def Js.settlementCore : SettlementCore where
  Write := Js.QueuedWrite
  id := Js.QueuedWrite.id
  key := Js.QueuedWrite.key
  baseVersion := Js.QueuedWrite.baseVersion
  settle := Js.settleQueuedAck
  inexact := Js.settleQueuedAck_inexact
  together := Js.settleQueuedAck_together

def Dart.settlementCore : SettlementCore where
  Write := Dart.QueuedWrite
  id := Dart.QueuedWrite.id
  key := Dart.QueuedWrite.key
  baseVersion := Dart.QueuedWrite.baseVersion
  settle := fun localRow current settlingKey baseVersion ack =>
    Dart.settleQueuedAck localRow current.id current.key settlingKey baseVersion ack.id
      ack.committedVersion
  inexact := Dart.settleQueuedAck_inexact
  together := by
    intro localRow current settlingKey baseVersion ack
    unfold Dart.settleQueuedAck
    dsimp only
    split <;> rfl

inductive Port where
  | rust
  | js
  | dart
  deriving DecidableEq, Repr

def Port.core : Port → SettlementCore
  | .rust => Rust.settlementCore
  | .js => Js.settlementCore
  | .dart => Dart.settlementCore

namespace QueueSlot

/-- The row, its slot, and every write issued so far, the newest last. -/
structure State (core : SettlementCore) where
  row : Option LocalRow
  slot : Option core.Write
  issued : List core.Write

/-- A local write, or the arrival of an ack for the request at a place among
those issued. -/
inductive Event (core : SettlementCore) where
  | localWrite (write : core.Write)
  | ackArrives (request : Nat) (committedVersion : Hlc)

section Steps

variable {core : SettlementCore}

def State.dirty (s : State core) : Bool := s.row.any (·.dirty)

def State.newestKey (s : State core) : Option String := s.issued.getLast?.map core.key

/-- The write replaces the slot and dirties the row at its version. -/
def State.localWrite (s : State core) (write : core.Write) : State core :=
  { row := some { version := core.baseVersion write, dirty := true }
    slot := some write
    issued := s.issued ++ [write] }

/-- The ack of `request` against the slot and the row. -/
def State.settle (s : State core) (request : core.Write) (committedVersion : Hlc) :
    State core :=
  match s.slot, s.row with
  | some current, some localRow =>
      let settlement := core.settle localRow current (core.key request)
        (core.baseVersion request)
        { id := core.id request, committedVersion := committedVersion }
      { s with
        row := some <| match settlement.adopt with
          | some version => { version := version, dirty := false }
          | none => localRow
        slot := if settlement.retireCurrentSlot then none else some current }
  | _, _ => s

def step (s : State core) : Event core → State core
  | .localWrite write => s.localWrite write
  | .ackArrives request committedVersion =>
      match s.issued[request]? with
      | some write => s.settle write committedVersion
      | none => s

/-- A write comes with a key no earlier one has. -/
def Fresh (s : State core) : Event core → Prop
  | .localWrite write => ∀ earlier ∈ s.issued, core.key earlier ≠ core.key write
  | .ackArrives _ _ => True

/-- Nothing was written yet: the row is clean or absent, and the slot empty. -/
structure Settled (s : State core) : Prop where
  clean : s.dirty = false
  empty : s.slot = none
  unissued : s.issued = []

/-- The safety of the slot, with the names of the model. -/
structure Safe (s : State core) : Prop where
  queueMatchesDirty : s.dirty = true ↔ s.slot.isSome = true
  queueKeyIsNewest : ∀ current, s.slot = some current →
    s.newestKey = some (core.key current) ∧
      ∃ localRow, s.row = some localRow ∧ localRow.version = core.baseVersion current
  retirementRequiresExactKey : ∀ event,
    (s.slot.isSome = true ∧ (step s event).slot = none ∨
      s.dirty = true ∧ (step s event).dirty = false) →
    ∃ request committedVersion write, event = .ackArrives request committedVersion ∧
      s.issued[request]? = some write ∧ s.newestKey = some (core.key write)
  lateAckChangesNothing : ∀ request committedVersion, request + 1 < s.issued.length →
    step s (.ackArrives request committedVersion) = s
  duplicateAckChangesNothing : ∀ request committedVersion, s.slot = none →
    step s (.ackArrives request committedVersion) = s

/-- What the steps keep: distinct keys, and a full slot that is the newest write
over a row dirty at its base. -/
structure Inv (s : State core) : Prop where
  distinct : (s.issued.map core.key).Nodup
  empty : s.slot = none → s.dirty = false
  full : ∀ current, s.slot = some current →
    s.issued.getLast? = some current ∧
      s.row = some { version := core.baseVersion current, dirty := true }

variable {s : State core}

/-- An ack of another key settles nothing. -/
theorem settle_other_key {request current : core.Write} (hslot : s.slot = some current)
    (hkey : core.key current ≠ core.key request) (committedVersion : Hlc) :
    s.settle request committedVersion = s := by
  obtain ⟨row, slot, issued⟩ := s
  obtain rfl : slot = some current := hslot
  cases row with
  | none => rfl
  | some localRow =>
      have hinexact : core.settle localRow current (core.key request) (core.baseVersion request)
          { id := core.id request, committedVersion := committedVersion } =
          AckOutcome.superseded.settlement := core.inexact fun hexact => hkey hexact.key
      simp [State.settle, hinexact, AckOutcome.settlement, AckOutcome.adopted]

/-- Without a slot nothing is settled. -/
theorem settle_empty (request : core.Write) (hslot : s.slot = none) (committedVersion : Hlc) :
    s.settle request committedVersion = s := by
  simp [State.settle, hslot]

/-- A settlement leaves everything, or empties the slot and cleans the row. -/
theorem settle_cases (s : State core) (request : core.Write) (committedVersion : Hlc) :
    s.settle request committedVersion = s ∨
      ∃ version, s.settle request committedVersion =
        { s with row := some { version := version, dirty := false }, slot := none } := by
  obtain ⟨row, slot, issued⟩ := s
  cases slot with
  | none => exact Or.inl rfl
  | some current =>
      cases row with
      | none => exact Or.inl rfl
      | some localRow =>
          have htogether := core.together localRow current (core.key request)
            (core.baseVersion request)
            { id := core.id request, committedVersion := committedVersion }
          simp only [State.settle, htogether]
          cases (core.settle localRow current (core.key request) (core.baseVersion request)
            { id := core.id request, committedVersion := committedVersion }).adopt with
          | none => exact Or.inl rfl
          | some version => exact Or.inr ⟨version, rfl⟩

theorem Settled.inv (h : Settled s) : Inv s := by
  refine ⟨?_, fun _ => h.clean, fun current hslot => ?_⟩
  · rw [h.unissued]
    exact List.nodup_nil
  · rw [h.empty] at hslot
    cases hslot

theorem settle_inv (h : Inv s) (request : core.Write) (committedVersion : Hlc) :
    Inv (s.settle request committedVersion) := by
  rcases settle_cases s request committedVersion with hsame | ⟨version, hsettled⟩
  · rw [hsame]
    exact h
  · rw [hsettled]
    refine ⟨h.distinct, fun _ => rfl, ?_⟩
    intro current hslot
    cases hslot

theorem step_inv (h : Inv s) {event : Event core} (hfresh : Fresh s event) :
    Inv (step s event) := by
  cases event with
  | localWrite write =>
      refine ⟨?_, nofun, fun current hslot => ?_⟩
      · have hnew : core.key write ∉ s.issued.map core.key := by
          intro hmem
          obtain ⟨earlier, hearlier, hkey⟩ := List.mem_map.mp hmem
          exact hfresh earlier hearlier hkey
        have hsplit : (s.localWrite write).issued.map core.key =
            s.issued.map core.key ++ [core.key write] := List.map_append
        show ((s.localWrite write).issued.map core.key).Nodup
        rw [hsplit]
        exact List.nodup_append.mpr ⟨h.distinct, by simp, by
          intro key hkey other hother heq
          exact hnew (by rwa [heq, List.mem_singleton.mp hother] at hkey)⟩
      · obtain rfl : write = current := Option.some.inj hslot
        exact ⟨List.getLast?_concat, rfl⟩
  | ackArrives request committedVersion =>
      simp only [step]
      cases s.issued[request]? with
      | none => exact h
      | some write => exact settle_inv h write committedVersion

/-- The key of an earlier request is not that of the newest. -/
theorem Inv.late_key (h : Inv s) {request : Nat} {write newest : core.Write}
    (hlate : request + 1 < s.issued.length) (hwrite : s.issued[request]? = some write)
    (hnewest : s.issued.getLast? = some newest) : core.key newest ≠ core.key write := by
  intro hkey
  rw [List.getLast?_eq_getElem?] at hnewest
  have hfirst : (s.issued.map core.key)[request]? = some (core.key write) := by
    rw [List.getElem?_map, hwrite, Option.map_some]
  have hlast : (s.issued.map core.key)[s.issued.length - 1]? = some (core.key write) := by
    rw [List.getElem?_map, hnewest, Option.map_some, hkey]
  have hlength : request < (s.issued.map core.key).length := by
    rw [List.length_map]
    omega
  have hplace := (List.getElem?_inj hlength h.distinct).mp (hfirst.trans hlast.symm)
  omega

theorem Inv.dirty_iff_full (h : Inv s) : s.dirty = true ↔ s.slot.isSome = true := by
  cases hslot : s.slot with
  | none => simp [h.empty hslot]
  | some current =>
      obtain ⟨-, hrow⟩ := h.full current hslot
      simp [State.dirty, hrow]

theorem Inv.newestKey (h : Inv s) {current : core.Write} (hslot : s.slot = some current) :
    s.newestKey = some (core.key current) := by
  rw [State.newestKey, (h.full current hslot).1, Option.map_some]

/-- An ack that changes a full slot has the key of the slot's write. -/
theorem ack_changes {current : core.Write} (hslot : s.slot = some current) {request : Nat}
    {committedVersion : Hlc} (hchanged : step s (.ackArrives request committedVersion) ≠ s) :
    ∃ write, s.issued[request]? = some write ∧ core.key current = core.key write := by
  cases hwrite : s.issued[request]? with
  | none => simp [step, hwrite] at hchanged
  | some write =>
      refine ⟨write, rfl, ?_⟩
      by_contra hother
      apply hchanged
      simp only [step, hwrite]
      exact settle_other_key hslot hother committedVersion

/-- Only the ack of the newest key retires the slot or cleans the row. -/
theorem Inv.retirement (h : Inv s) (event : Event core)
    (hretired : s.slot.isSome = true ∧ (step s event).slot = none ∨
      s.dirty = true ∧ (step s event).dirty = false) :
    ∃ request committedVersion write, event = .ackArrives request committedVersion ∧
      s.issued[request]? = some write ∧ s.newestKey = some (core.key write) := by
  have hfull : s.slot.isSome = true := by
    rcases hretired with ⟨hfull, -⟩ | ⟨hrow, -⟩
    · exact hfull
    · exact h.dirty_iff_full.mp hrow
  obtain ⟨current, hslot⟩ := Option.isSome_iff_exists.mp hfull
  cases event with
  | localWrite write =>
      rcases hretired with ⟨-, hempty⟩ | ⟨-, hclean⟩
      · cases hempty
      · cases hclean
  | ackArrives request committedVersion =>
      have hchanged : step s (.ackArrives request committedVersion) ≠ s := by
        intro hsame
        rw [hsame] at hretired
        rcases hretired with ⟨-, hempty⟩ | ⟨hrow, hclean⟩
        · rw [hslot] at hempty
          cases hempty
        · rw [hrow] at hclean
          cases hclean
      obtain ⟨write, hwrite, hkey⟩ := ack_changes hslot hchanged
      exact ⟨request, committedVersion, write, rfl, hwrite, by rw [h.newestKey hslot, hkey]⟩

/-- The ack of any write but the newest changes nothing. -/
theorem Inv.late_ack (h : Inv s) {request : Nat} (hlate : request + 1 < s.issued.length)
    (committedVersion : Hlc) : step s (.ackArrives request committedVersion) = s := by
  have hlt : request < s.issued.length := by omega
  have hwrite : s.issued[request]? = some s.issued[request] := List.getElem?_eq_getElem hlt
  simp only [step, hwrite]
  cases hslot : s.slot with
  | none => exact settle_empty _ hslot committedVersion
  | some current =>
      have hlater := h.late_key hlate hwrite (h.full current hslot).1
      exact settle_other_key hslot hlater committedVersion

/-- An ack with the slot empty changes nothing. -/
theorem ack_empty (hslot : s.slot = none) (request : Nat) (committedVersion : Hlc) :
    step s (.ackArrives request committedVersion) = s := by
  simp only [step]
  cases s.issued[request]? with
  | none => rfl
  | some write => exact settle_empty write hslot committedVersion

theorem Inv.safe (h : Inv s) : Safe s where
  queueMatchesDirty := h.dirty_iff_full
  queueKeyIsNewest := fun current hslot =>
    ⟨h.newestKey hslot, _, (h.full current hslot).2, rfl⟩
  retirementRequiresExactKey := h.retirement
  lateAckChangesNothing := fun _ committedVersion hlate => h.late_ack hlate committedVersion
  duplicateAckChangesNothing := fun request committedVersion hslot =>
    ack_empty hslot request committedVersion

end Steps

/-- In every state of every run of a row and its slot, with the settlement of any
port: the row is dirty exactly while the slot is full, the slot is the newest
write's at the row's version, only an ack with the newest key retires or cleans,
and acks of older writes change nothing. -/
theorem queue_slot_safe (port : Port) (start : State port.core) (events : List (Event port.core))
    (hsettled : Settled start) (hfresh : Run.Along step Fresh start events) :
    Safe (Run.final step start events) :=
  (Run.induction (J := Inv) (fun _ _ hinv hevent => step_inv hinv hevent) hsettled.inv hfresh).safe

/-- Two writes of a row, and an ack of the first from a server far ahead. -/
def firstWrite : Rust.QueuedWrite :=
  { table := "todos", id := "a", op := .upsert, key := "device-1-0",
    baseVersion := { wallMs := 1, counter := 0, actor := "device" } }

def secondWrite : Rust.QueuedWrite :=
  { firstWrite with
    key := "device-2-1", baseVersion := { wallMs := 2, counter := 0, actor := "device" } }

def unwritten : State Rust.settlementCore := { row := none, slot := none, issued := [] }

def lateAck : List (Event Rust.settlementCore) :=
  [.localWrite firstWrite, .localWrite secondWrite,
    .ackArrives 0 { wallMs := 100000, counter := 0, actor := "server" }]

theorem late_ack_run_safe : Safe (Run.final step unwritten lateAck) := by
  have hkeys : ∀ earlier ∈ [firstWrite], earlier.key ≠ secondWrite.key := by decide
  exact queue_slot_safe .rust unwritten lateAck ⟨rfl, rfl, rfl⟩
    ⟨nofun, hkeys, trivial, trivial⟩

example : (Run.final step unwritten lateAck).slot = some secondWrite := rfl

end QueueSlot

open QueueSlot

/-- An acknowledgement in a browser store is the slot's `settle`, on the entry it
finds by its sequence number and the row it names. -/
theorem Js.Store.settleAck_simulates {store : Js.Store} {options : Js.SettleOptions}
    {index : Nat} {entry : Js.QueueEntry} {stored : Js.StoredRow}
    {s : State Js.settlementCore} {request : Js.QueuedWrite}
    (hfound : store.queue.findIdx? (·.seq = options.seq) = some index)
    (hentry : store.queue[index]? = some entry)
    (hstored : store.getRow options.table options.id = some stored)
    (hslot : s.slot = some entry.toQueuedWrite) (hrow : s.row = some stored.localRow)
    (hid : request.id = options.id) (hkey : request.key = options.writeKey)
    (hbase : request.baseVersion = options.baseVersion) :
    let after := (store.settleAck options).2
    let settled := s.settle request options.committedVersion
    (after.getRow options.table options.id).map Js.StoredRow.localRow = settled.row ∧
      after.queue = if settled.slot.isSome then store.queue else store.queue.eraseIdx index := by
  have hget : store.queue.getD index default = entry := by
    simp [List.getD_eq_getElem?_getD, hentry]
  obtain ⟨row, slot, issued⟩ := s
  obtain rfl : slot = some entry.toQueuedWrite := hslot
  obtain rfl : row = some stored.localRow := hrow
  simp only [Js.Store.settleAck, hfound, hstored, hget, State.settle, Js.settlementCore, hid, hkey,
    hbase, Js.StoredRow.localRow, Js.settleQueuedAck_together]
  cases (Js.settleQueuedAck
      { version := stored.rowMeta.version, dirty := stored.rowMeta.dirty } entry.toQueuedWrite
      options.writeKey options.baseVersion
      { id := options.id, committedVersion := options.committedVersion }).adopt with
  | none => simp [hstored, Js.StoredRow.localRow]
  | some version => simp [Js.StoredRow.localRow]

end ZedSync
