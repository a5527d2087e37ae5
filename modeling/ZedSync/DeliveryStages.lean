import ZedSync.Agreement
import ZedSync.ClockRuns
import ZedSync.Dart.Delivery
import ZedSync.Js.Client
import ZedSync.Rows

/-!
The rows of both clients, and the stages their deliveries go through: what `applyChange`
decides on the row it read, and what it then puts and retires.
-/

namespace ZedSync

open Async

namespace Js

/-- What an action does to the rows of the store and the clock. -/
def Action.touches : (action : Action) → Touch StoredRow action.Reply
  | .putRow table id row rowMeta => .put (rowKey table id) { row := row, rowMeta := rowMeta }
  | .removeRow table id rowMeta => .put (rowKey table id) { row := none, rowMeta := rowMeta }
  | .getRow table id => .read (rowKey table id) fun stored => stored
  | .tick _ _ => .stamp fun stamp => stamp
  | .observe remote => .observe remote
  | .newClient _ => .restart
  | .retire _ => .retire
  | _ => .other

theorem touches_put {action : Action} {key : String} {stored : StoredRow} :
    action.touches = .put key stored ↔
      ∃ table id, action.puts = some (table, id, stored) ∧ rowKey table id = key := by
  cases action <;> simp [Action.touches, Action.puts, eq_comm, and_comm, and_left_comm]

theorem puts_of_touches {action : Action} (h : ∀ key stored, action.touches ≠ .put key stored) :
    action.puts = none := by
  cases hputs : action.puts with
  | none => rfl
  | some put => exact absurd (touches_put.mpr ⟨_, _, hputs, rfl⟩) (h _ put.2.2)

/-- The rows of the browser store. -/
def rows : Rows session StoredRow where
  row world := world.store.rows
  localRow := StoredRow.localRow
  payload := StoredRow.row
  adopted := World.adopted
  clock world := world.clock.stamp
  now := Input.now
  does := Action.touches
  put_row := by
    intro action key put hputs input world
    obtain ⟨table, id, hput, rfl⟩ := touches_put.mp hputs
    show (perform action input world).2.store.rows = _
    rw [(perform_puts hput input world).1]
    funext key
    simp [Store.setRow, Function.update_apply]
  put_adopted := by
    intro action key put hputs input world
    obtain ⟨table, id, hput, rfl⟩ := touches_put.mp hputs
    exact (perform_puts hput input world).2
  raised := fun hputs input world _ _ hcurrent =>
    perform_rows (puts_of_touches hputs) input world hcurrent
  still_adopted := fun hputs => perform_adopted (puts_of_touches hputs)
  looked := by
    intro action key look hreads input world
    cases action with
    | getRow table id =>
        cases hreads
        exact ⟨rfl, rfl⟩
    | _ => cases hreads
  stamped := by
    intro action look hstamps input world
    cases action with
    | tick table id =>
        cases hstamps
        exact ⟨rfl, lt_tick world.clock input.now, le_rfl⟩
    | _ => cases hstamps
  folded := by
    intro action remote hobserves input hadmits world
    cases action with
    | observe remote' =>
        cases hobserves
        exact (remote_lt_observe hadmits world.clock).le
    | _ => cases hobserves
  forward := by
    intro action hrestarts input world
    cases action with
    | tick table id => exact (lt_tick world.clock input.now).le
    | observe remote => exact (lt_observe world.clock remote input.now).le
    | newClient newProcess => exact absurd rfl hrestarts
    | dispatch _ | lock | renew | afterRenew _ _ | readHandle | stopBegin | releaseLease
    | settled =>
        exact (congrArg Clock.stamp (Action.ofSession.sameClient (by trivial) input world).clock).ge
    | _ => exact le_rfl

/-- A row of the browser store. -/
def rowCell (table id : String) : Cell session StoredRow Hlc (Option Json) :=
  rows.cell (rowKey table id)

theorem reconcile_apply {existing : Option LocalRow} {incoming : ChangeEvent}
    (h : reconcile existing incoming = .apply) : GivesWay existing incoming := by
  rintro row rfl
  rcases lt_trichotomy incoming.version row.version with holder | hsame | hnewer
  · simp [reconcile_older holder] at h
  · simp [reconcile_same hsame] at h
  · exact Or.inl hnewer

theorem reconcile_conflict {row : LocalRow} {incoming : ChangeEvent}
    (h : reconcile (some row) incoming = .conflict) : IsOutrun (some row) incoming :=
  ⟨row, rfl, (reconcile_conflict_iff row incoming).mp h⟩

theorem reconcile_alreadyApplied {row : LocalRow} {incoming : ChangeEvent}
    (h : reconcile (some row) incoming = .ignore .alreadyApplied) :
    row.version = incoming.version := by
  rcases lt_trichotomy incoming.version row.version with holder | hsame | hnewer
  · simp [reconcile_older holder] at h
  · exact hsame.symm
  · rw [reconcile_newer hnewer] at h
    split at h <;> cases h

namespace DeliveryStage

/-- Where an action and its reply lead. -/
def Next (incoming : ChangeEvent) :
    DeliveryStage → (action : Action) → action.Reply → DeliveryStage → Prop
  | .entering, .requireCapability _, _, after => after = .entering
  | .entering, .observe remote, _, after => remote = incoming.version ∧ after = .observed
  | .observed, .getRow table id, existing, after =>
      (table = incoming.table ∧ id = incoming.id) ∧
        after = .decided (existing.map StoredRow.localRow)
  | .decided existing, .dateNow, _, after => after = .decided existing
  | .decided existing, .putRow table id row rowMeta, _, after =>
      GivesWay existing incoming ∧ (Action.putRow table id row rowMeta).Adopts incoming ∧
        after = .adopted existing
  | .decided existing, .removeRow table id rowMeta, _, after =>
      GivesWay existing incoming ∧ (Action.removeRow table id rowMeta).Adopts incoming ∧
        after = .adopted existing
  | .adopted existing, .pending, _, after =>
      IsOutrun existing incoming ∧ after = .adopted existing
  | .adopted existing, .retire _, _, after =>
      IsOutrun existing incoming ∧ after = .adopted existing
  | _, _, _, _ => False

variable {incoming : ChangeEvent} {existing : Option LocalRow}

/-- The program goes through the stages from this one. -/
abbrev Leads (incoming : ChangeEvent) (stage : DeliveryStage) (program : Prog session α)
    (E : α → DeliveryStage → Prop := fun _ _ => True) : Prop :=
  program.Follows (Next incoming) E stage

theorem leads_adopt (h : GivesWay existing incoming) :
    Leads incoming (.decided existing) (adopt incoming) fun _ after =>
      after = .adopted existing := by
  intro now
  refine ⟨_, rfl, ?_⟩
  dsimp only
  split
  · rename_i hdelete
    refine fun _ => ⟨_, ⟨h, ⟨_, rfl, ?_, rfl, rfl⟩, rfl⟩, rfl⟩
    simp [ChangeEvent.live, hdelete]
  · rename_i hupsert
    refine fun _ => ⟨_, ⟨h, ⟨_, rfl, ?_, rfl, rfl⟩, rfl⟩, rfl⟩
    simp [ChangeEvent.live, hupsert]

theorem leads_retireEach (h : IsOutrun existing incoming) (table id : String)
    (entries : List QueueEntry) :
    Leads incoming (.adopted existing) (retireEach table id entries) := by
  induction entries with
  | nil => trivial
  | cons entry rest ih =>
      simp only [retireEach]
      split
      · exact fun _ => ⟨_, ⟨h, rfl⟩, ih⟩
      · exact ih

theorem leads_adoptAs (h : GivesWay existing incoming) (outcome : ChangeOutcome) :
    Leads incoming (.decided existing) (adoptAs incoming outcome) :=
  (leads_adopt h).bind fun _ _ _ => trivial

theorem leads_adoptOverQueued (h : IsOutrun existing incoming) :
    Leads incoming (.decided existing) (adoptOverQueued incoming) := by
  refine (leads_adopt h.givesWay).bind fun _ after hafter => ?_
  obtain rfl := hafter
  refine Prog.Follows.bind (E := fun _ _ => True) ?_ fun _ _ _ => trivial
  exact fun entries => ⟨_, ⟨h, rfl⟩, leads_retireEach h _ _ entries⟩

/-- From the decision on, the delivery puts where the row it read gives way only. -/
theorem leads_applyDecision (config : ClientConfig) (incoming : ChangeEvent)
    (existing : Option StoredRow) :
    Leads incoming (.decided (existing.map StoredRow.localRow))
      (applyDecision config incoming existing) := by
  unfold applyDecision
  split
  · rename_i happly
    exact leads_adoptAs (reconcile_apply happly) _
  · rename_i stored hconflict
    split
    · exact leads_adoptOverQueued (reconcile_conflict hconflict)
    · trivial
  · rename_i stored hsame
    split
    · rename_i hclean
      refine leads_adoptAs ?_ _
      rintro row ⟨⟩
      exact Or.inr ⟨reconcile_alreadyApplied hsame, by simpa [StoredRow.localRow] using hclean⟩
    · trivial
  · trivial

theorem leads_applyChange (config : ClientConfig) (incoming : ChangeEvent) :
    Leads incoming .entering (applyChange config incoming) := by
  intro refusal
  refine ⟨.entering, rfl, ?_⟩
  cases refusal with
  | some phase => trivial
  | none =>
      dsimp only
      split
      · trivial
      · exact fun _ => ⟨.observed, ⟨rfl, rfl⟩, fun existing =>
          ⟨_, ⟨⟨rfl, rfl⟩, rfl⟩, leads_applyDecision config incoming existing⟩⟩

/-- The actions of a delivery beside its read and its put. -/
def Passes : Action → Prop
  | .requireCapability _ | .observe _ | .dateNow | .pending | .retire _ => True
  | _ => False

theorem Passes.rows {action : Action} (h : Passes action) (input : Input) (world : World) :
    (perform action input world).2.store.rows = world.store.rows := by
  cases action <;> first | rfl | exact h.elim

/-- A step of a delivery is its read, its put, or none of both. -/
theorem next_cases {stage after : DeliveryStage} {action : Action} {input : Input} {world : World}
    (h : Next incoming stage action (perform action input world).1 after) :
    (stage = .observed ∧ action = .getRow incoming.table incoming.id ∧
      after = .decided
        ((world.store.getRow incoming.table incoming.id).map StoredRow.localRow)) ∨
    (∃ existing, stage = .decided existing ∧ GivesWay existing incoming ∧
      action.Adopts incoming ∧ after = .adopted existing) ∨
    (Passes action ∧ (after = stage ∨ stage = .entering ∧ after = .observed)) := by
  cases stage with
  | entering =>
      cases action <;> first
        | exact h.elim
        | exact Or.inr (Or.inr ⟨trivial, Or.inl h⟩)
        | exact Or.inr (Or.inr ⟨trivial, Or.inr ⟨rfl, h.2⟩⟩)
  | observed =>
      cases action <;> first
        | exact h.elim
        | exact Or.inl ⟨rfl, by rw [h.1.1, h.1.2], by rw [h.2, perform, h.1.1, h.1.2]⟩
  | decided existing =>
      cases action <;> first
        | exact h.elim
        | exact Or.inr (Or.inr ⟨trivial, Or.inl h⟩)
        | exact Or.inr (Or.inl ⟨existing, rfl, h⟩)
  | adopted existing =>
      cases action <;> first
        | exact h.elim
        | exact Or.inr (Or.inr ⟨trivial, Or.inl h.2⟩)

/-- What a delivery does to the rows. -/
theorem next_delivers {stage after : DeliveryStage} {action : Action} {reply : action.Reply}
    (h : Next incoming stage action reply after) :
    rows.Delivers (rowKey incoming.table incoming.id) incoming stage action reply after := by
  cases stage with
  | entering =>
      cases action <;> first
        | exact h.elim
        | exact h
        | exact ⟨rfl, h.1, h.2⟩
  | observed =>
      cases action <;> first
        | exact h.elim
        | obtain ⟨⟨rfl, rfl⟩, hafter⟩ := h
          exact ⟨rfl, rfl, hafter⟩
  | decided existing =>
      cases action <;> first
        | exact h.elim
        | exact h
        | obtain ⟨hgives, ⟨stored, hputs, -, hversion, hclean⟩, hafter⟩ := h
          cases hputs
          exact ⟨rfl, hversion, hclean, existing, rfl, hgives, hafter⟩
  | adopted existing =>
      cases action <;> first
        | exact h.elim
        | exact h.2
        | exact ⟨h.2, existing, rfl, h.1⟩

end DeliveryStage

end Js

namespace Dart

/-- What an action does to the rows of the storage and the clock. -/
def Action.touches : (action : Action) → Touch StoredRow action.Reply
  | .putRow table id row => .put (rowKey table id) row
  | .getRow table id => .read (rowKey table id) fun stored => stored
  | .tick _ _ => .stamp fun stamp => stamp
  | .observe remote => .observe remote
  | .newClient => .restart
  | .retire _ => .retire
  | _ => .other

theorem touches_put {action : Action} {key : String} {stored : StoredRow} :
    action.touches = .put key stored ↔
      ∃ table id, action.puts = some (table, id, stored) ∧ rowKey table id = key := by
  cases action <;> simp [Action.touches, Action.puts, eq_comm, and_comm]

theorem puts_of_touches {action : Action} (h : ∀ key stored, action.touches ≠ .put key stored) :
    action.puts = none := by
  cases hputs : action.puts with
  | none => rfl
  | some put => exact absurd (touches_put.mpr ⟨_, _, hputs, rfl⟩) (h _ put.2.2)

/-- The rows of the Dart storage. -/
def rows : Rows device StoredRow where
  row world := world.storage.rows
  localRow := StoredRow.localRow
  payload := StoredRow.row
  adopted := World.adopted
  clock world := world.clock.stamp
  now := Input.now
  does := Action.touches
  put_row := by
    intro action key put hputs input world
    obtain ⟨table, id, hput, rfl⟩ := touches_put.mp hputs
    show (perform action input world).2.storage.rows = _
    rw [(perform_puts hput input world).1]
    funext key
    simp [MemoryStorage.putRow, Function.update_apply]
  put_adopted := by
    intro action key put hputs input world
    obtain ⟨table, id, hput, rfl⟩ := touches_put.mp hputs
    exact (perform_puts hput input world).2
  raised := fun hputs input world _ _ hcurrent =>
    perform_rows (puts_of_touches hputs) input world hcurrent
  still_adopted := fun hputs => perform_adopted (puts_of_touches hputs)
  looked := by
    intro action key look hreads input world
    cases action with
    | getRow table id =>
        cases hreads
        exact ⟨rfl, rfl⟩
    | _ => cases hreads
  stamped := by
    intro action look hstamps input world
    cases action with
    | tick table id =>
        cases hstamps
        exact ⟨rfl, lt_tick world.clock input.now, le_rfl⟩
    | _ => cases hstamps
  folded := by
    intro action remote hobserves input hadmits world
    cases action with
    | observe remote' =>
        cases hobserves
        have hlt := remote_lt_observe hadmits world.clock
        rw [← observe_eq] at hlt
        exact hlt.le
    | _ => cases hobserves
  forward := by
    intro action hrestarts input world
    cases action with
    | tick table id => exact (lt_tick world.clock input.now).le
    | observe remote =>
        have hlt := lt_observe world.clock remote input.now
        rw [← observe_eq] at hlt
        exact hlt.le
    | newClient => exact absurd rfl hrestarts
    | _ => exact le_rfl

/-- A row of the Dart storage. -/
def rowCell (table id : String) : Cell device StoredRow Hlc (Option Json) :=
  rows.cell (rowKey table id)

/-- What a delivery puts: the image of the change at its version, clean. -/
def Action.Adopts (incoming : ChangeEvent) (action : Action) : Prop :=
  ∃ stored, action.puts = some (incoming.table, incoming.id, stored) ∧
    stored.row = incoming.live ∧ stored.version = incoming.version ∧ stored.dirty = false

namespace DeliveryStage

/-- Where an action and its reply lead. -/
def Next (incoming : ChangeEvent) :
    DeliveryStage → (action : Action) → action.Reply → DeliveryStage → Prop
  | .entering, .requireCapability _, _, after => after = .entering
  | .entering, .observe remote, _, after => remote = incoming.version ∧ after = .observed
  | .observed, .getRow table id, existing, after =>
      (table = incoming.table ∧ id = incoming.id) ∧
        after = .decided (existing.map StoredRow.localRow)
  | .decided existing, .now, _, after => after = .decided existing
  | .decided existing, .putRow table id row, _, after =>
      GivesWay existing incoming ∧ (Action.putRow table id row).Adopts incoming ∧
        after = .adopted existing
  | .adopted existing, .pending, _, after =>
      IsOutrun existing incoming ∧ after = .adopted existing
  | .adopted existing, .retire _, _, after =>
      IsOutrun existing incoming ∧ after = .adopted existing
  | _, _, _, _ => False

variable {incoming : ChangeEvent} {existing : Option LocalRow}

/-- The program goes through the stages from this one. -/
abbrev Leads (incoming : ChangeEvent) (stage : DeliveryStage) (program : Prog device α)
    (E : α → DeliveryStage → Prop := fun _ _ => True) : Prop :=
  program.Follows (Next incoming) E stage

theorem leads_adopt (h : GivesWay existing incoming) :
    Leads incoming (.decided existing) (adopt incoming) fun _ after =>
      after = .adopted existing :=
  fun _ => ⟨_, rfl, fun _ => ⟨_, ⟨h, ⟨_, rfl, rfl, rfl, rfl⟩, rfl⟩, rfl⟩⟩

theorem leads_retireEach (h : IsOutrun existing incoming) (table id : String)
    (writes : List QueuedWrite) :
    Leads incoming (.adopted existing) (retireEach table id writes) := by
  induction writes with
  | nil => trivial
  | cons write rest ih =>
      simp only [retireEach]
      split
      · exact fun _ => ⟨_, ⟨h, rfl⟩, ih⟩
      · exact ih

theorem leads_adoptAs (h : GivesWay existing incoming) (outcome : ChangeOutcome) :
    Leads incoming (.decided existing) (adoptAs incoming outcome) :=
  (leads_adopt h).bind fun _ _ _ => trivial

theorem leads_adoptOverQueued (h : IsOutrun existing incoming) :
    Leads incoming (.decided existing) (adoptOverQueued incoming) := by
  refine (leads_adopt h.givesWay).bind fun _ after hafter => ?_
  obtain rfl := hafter
  exact fun writes => ⟨_, ⟨h, rfl⟩, (leads_retireEach h _ _ writes).bind fun _ _ _ => trivial⟩

/-- From the decision on, the delivery puts where the row it read gives way only. -/
theorem leads_applyDecision (config : ClientConfig) (incoming : ChangeEvent)
    (existing : Option StoredRow) :
    Leads incoming (.decided (existing.map StoredRow.localRow))
      (applyDecision config incoming existing) := by
  unfold applyDecision
  split
  · rename_i happly
    rw [reconcile_eq] at happly
    exact leads_adoptAs (Js.reconcile_apply happly) _
  · rename_i stored hconflict
    rw [reconcile_eq] at hconflict
    split
    · exact leads_adoptOverQueued (Js.reconcile_conflict hconflict)
    · trivial
  · rename_i stored hsame
    rw [reconcile_eq] at hsame
    split
    · rename_i hclean
      refine leads_adoptAs ?_ _
      rintro row ⟨⟩
      have hversion := Js.reconcile_alreadyApplied hsame
      exact Or.inr ⟨hversion, by simpa [StoredRow.localRow] using hclean⟩
    · trivial
  · trivial

theorem leads_applyChange (config : ClientConfig) (incoming : ChangeEvent) :
    Leads incoming .entering (applyChange config incoming) := by
  intro refusal
  refine ⟨.entering, rfl, ?_⟩
  cases refusal with
  | some phase => trivial
  | none =>
      exact fun _ => ⟨.observed, ⟨rfl, rfl⟩, fun existing =>
        ⟨_, ⟨⟨rfl, rfl⟩, rfl⟩, leads_applyDecision config incoming existing⟩⟩

/-- What a delivery does to the rows. -/
theorem next_delivers {stage after : DeliveryStage} {action : Action} {reply : action.Reply}
    (h : Next incoming stage action reply after) :
    rows.Delivers (rowKey incoming.table incoming.id) incoming stage action reply after := by
  cases stage with
  | entering =>
      cases action <;> first
        | exact h.elim
        | exact h
        | exact ⟨rfl, h.1, h.2⟩
  | observed =>
      cases action <;> first
        | exact h.elim
        | obtain ⟨⟨rfl, rfl⟩, hafter⟩ := h
          exact ⟨rfl, rfl, hafter⟩
  | decided existing =>
      cases action <;> first
        | exact h.elim
        | exact h
        | obtain ⟨hgives, ⟨stored, hputs, -, hversion, hclean⟩, hafter⟩ := h
          cases hputs
          exact ⟨rfl, hversion, hclean, existing, rfl, hgives, hafter⟩
  | adopted existing =>
      cases action <;> first
        | exact h.elim
        | exact h.2
        | exact ⟨h.2, existing, rfl, h.1⟩

end DeliveryStage

end Dart

end ZedSync
