import ZedSync.Clock
import ZedSync.Core
import ZedSync.Lib.Cells
import ZedSync.Lib.Stamping

/-!
The rows of a client and the clock that stamps its edits, whichever client it is. To the
threads that read and put it a row is a cell, and to the clock it is a register. A
delivery folds the stamp of its change into the clock, reads the row, decides, puts the
change where what it read gives way, and on a conflict retires the queued writes of the
row. Whatever it read, it acts on that, some awaits later.
-/

namespace ZedSync

open Async

/-- What an action does to the rows and the clock. -/
inductive Touch (ρ R : Type) where
  | put (key : String) (row : ρ)
  | read (key : String) (look : R → Option ρ)
  | stamp (look : R → Hlc)
  | observe (remote : Hlc)
  | restart
  | retire
  | other

/-- The rows of a client by their keys, the versions of the changes it adopted, and its
clock. Only a put lowers a row, and no action forgets one. Only a restart sets the clock
back. -/
structure Rows (I : Interface) (ρ : Type) where
  row : I.World → String → Option ρ
  localRow : ρ → LocalRow
  payload : ρ → Option Json
  adopted : I.World → List (String × Hlc)
  clock : I.World → Hlc
  now : I.Input → Nat
  does : (action : I.Action) → Touch ρ (I.Reply action)
  put_row : ∀ {action key put}, does action = .put key put → ∀ input world,
    row (I.perform action input world).2 = Function.update (row world) key (some put)
  put_adopted : ∀ {action key put}, does action = .put key put → ∀ input world,
    adopted (I.perform action input world).2 = adopted world ++
      if (localRow put).dirty then [] else [(key, (localRow put).version)]
  raised : ∀ {action}, (∀ key put, does action ≠ .put key put) → ∀ input world {key current},
    row world key = some current →
      ∃ later, row (I.perform action input world).2 key = some later ∧
        (localRow current).version ≤ (localRow later).version
  still_adopted : ∀ {action}, (∀ key put, does action ≠ .put key put) → ∀ input world,
    adopted (I.perform action input world).2 = adopted world
  looked : ∀ {action key look}, does action = .read key look → ∀ input world,
    look (I.perform action input world).1 = row world key ∧
      (I.perform action input world).2 = world
  stamped : ∀ {action look}, does action = .stamp look → ∀ input world,
    row (I.perform action input world).2 = row world ∧
      clock world < look (I.perform action input world).1 ∧
      look (I.perform action input world).1 ≤ clock (I.perform action input world).2
  folded : ∀ {action remote}, does action = .observe remote → ∀ input,
    remote.wallMs ≤ now input + maxDriftMs →
      ∀ world, remote ≤ clock (I.perform action input world).2
  forward : ∀ {action}, does action ≠ .restart → ∀ input world,
    clock world ≤ clock (I.perform action input world).2

namespace Touch

variable {ρ R : Type} {key : String} {touch : Touch ρ R}

/-- The row that is put under the key. -/
@[simp] def putAt (key : String) : Touch ρ R → Option ρ
  | put key' row => if key' = key then some row else none
  | _ => none

@[simp] def readAt (key : String) : Touch ρ R → Option (R → Option ρ)
  | read key' look => if key' = key then some look else none
  | _ => none

@[simp] def stamps : Touch ρ R → Option (R → Hlc)
  | stamp look => some look
  | _ => none

@[simp] def observes : Touch ρ R → Option Hlc
  | observe remote => some remote
  | _ => none

@[simp] def restarts : Touch ρ R → Bool
  | restart => true
  | _ => false

theorem putAt_eq_some {row : ρ} : touch.putAt key = some row ↔ touch = .put key row := by
  cases touch <;> simp

theorem readAt_eq_some {look : R → Option ρ} :
    touch.readAt key = some look ↔ touch = .read key look := by
  cases touch <;> simp

theorem stamps_eq_some {look : R → Hlc} : touch.stamps = some look ↔ touch = .stamp look := by
  cases touch <;> simp

theorem observes_eq_some {remote : Hlc} :
    touch.observes = some remote ↔ touch = .observe remote := by
  cases touch <;> simp

end Touch

namespace Rows

variable {I : Interface} {ρ : Type} (rows : Rows I ρ)

theorem raised_at {action : I.Action} {key : String}
    (hputs : (rows.does action).putAt key = none) (input : I.Input) (world : I.World)
    {current : ρ} (hcurrent : rows.row world key = some current) :
    ∃ later, rows.row (I.perform action input world).2 key = some later ∧
      (rows.localRow current).version ≤ (rows.localRow later).version := by
  cases hdoes : rows.does action with
  | put key' put =>
      have hkey : key ≠ key' := by
        rintro rfl
        simp [hdoes] at hputs
      exact ⟨current, by rw [rows.put_row hdoes, Function.update_of_ne hkey, hcurrent], le_rfl⟩
  | _ => exact rows.raised (by simp [hdoes]) input world hcurrent

/-- The row as a cell of those that read and put it. -/
def cell (key : String) : Cell I ρ Hlc (Option Json) where
  stored world := rows.row world key
  version row := (rows.localRow row).version
  payload := rows.payload
  puts action := (rows.does action).putAt key
  reads action := (rows.does action).readAt key
  put_stored := by
    intro action put hputs input world
    rw [rows.put_row (Touch.putAt_eq_some.mp hputs), Function.update_self]
  raised := fun hputs input world _ hcurrent => rows.raised_at hputs input world hcurrent
  looked := by
    intro action look hreads input world
    obtain ⟨hlook, hsame⟩ := rows.looked (Touch.readAt_eq_some.mp hreads) input world
    exact ⟨hlook, by rw [hsame]⟩

variable {rows} {key : String} {action : I.Action}

theorem cell_puts {put : ρ} :
    (rows.cell key).puts action = some put ↔ rows.does action = .put key put :=
  Touch.putAt_eq_some

theorem movesByPut_of_put {put : ρ} (h : rows.does action = .put key put) :
    (rows.cell key).MovesByPut action := by
  intro hquiet
  cases hquiet.symm.trans (cell_puts.mpr h)

theorem movesByPut_of_still
    (h : ∀ input world, rows.row (I.perform action input world).2 = rows.row world) :
    (rows.cell key).MovesByPut action :=
  fun _ input world => congrFun (h input world) key

variable (rows)

/-- The versions of the changes adopted under the key. -/
def adoptedAt (key : String) (world : I.World) : List Hlc :=
  ((rows.adopted world).filter (·.1 = key)).map (·.2)

theorem mem_adoptedAt {key : String} {world : I.World} {version : Hlc} :
    version ∈ rows.adoptedAt key world ↔ (key, version) ∈ rows.adopted world := by
  simp [adoptedAt]

/-- The version of the row, beside the clock. -/
def register (key : String) : Register I Hlc where
  stored world := (rows.row world key).map fun row => (rows.localRow row).version
  adopted := rows.adoptedAt key
  clock := rows.clock
  puts action := ((rows.does action).putAt key).map fun row =>
    ((rows.localRow row).version, (rows.localRow row).dirty)
  stamps action := (rows.does action).stamps
  observes action := (rows.does action).observes
  admits remote input := remote.wallMs ≤ rows.now input + maxDriftMs
  restarts action := (rows.does action).restarts
  put_stored := by
    intro action version isLocal hputs input world
    obtain ⟨put, hput, hmeta⟩ := Option.map_eq_some_iff.mp hputs
    obtain ⟨rfl, -⟩ := Prod.mk.inj hmeta
    rw [rows.put_row (Touch.putAt_eq_some.mp hput), Function.update_self]
    rfl
  put_adopted := by
    intro action input world version hafter
    rw [mem_adoptedAt] at hafter ⊢
    cases hdoes : rows.does action with
    | put putKey put =>
        rw [rows.put_adopted hdoes, List.mem_append] at hafter
        refine hafter.imp_right fun hput => ?_
        split at hput
        · cases hput
        · rename_i hclean
          obtain ⟨rfl, rfl⟩ := Prod.mk.inj (List.mem_singleton.mp hput)
          simpa using hclean
    | _ =>
        rw [rows.still_adopted (by simp [hdoes])] at hafter
        exact Or.inl hafter
  stamped := by
    intro action look hstamps
    have hdoes := Touch.stamps_eq_some.mp hstamps
    refine ⟨by simp [hdoes], fun input world => ?_⟩
    obtain ⟨hrow, hclock⟩ := rows.stamped hdoes input world
    exact ⟨by rw [hrow], hclock⟩
  folded := fun hobserves input hadmits world =>
    rows.folded (Touch.observes_eq_some.mp hobserves) input (of_decide_eq_true hadmits) world
  forward := by
    intro action hrestarts
    refine rows.forward fun hdoes => ?_
    simp [hdoes] at hrestarts

variable {rows} {key : String} {action : I.Action} {version : Hlc}

theorem register_puts {isLocal : Bool} :
    (rows.register key).puts action = some (version, isLocal) ↔
      ∃ put, rows.does action = .put key put ∧ (rows.localRow put).version = version ∧
        (rows.localRow put).dirty = isLocal := by
  refine Option.map_eq_some_iff.trans (exists_congr fun put => ?_)
  rw [Touch.putAt_eq_some, Prod.mk.injEq]

/-- An edit of any row puts the stamp it holds. -/
theorem holding_next {key' : String} {put : ρ} (hputs : rows.does action = .put key' put)
    (reply : I.Reply action) :
    ∃ after, (rows.register key).Next (.holding (rows.localRow put).version) action reply after ∧
      after.Writes := by
  refine Register.next_writes (by trivial) (fun stamp hput => ?_) reply
  obtain ⟨other, hother, rfl, -⟩ := register_puts.mp hput
  rw [(Touch.put.inj (hputs.symm.trans hother)).2]

/-- What puts nothing dirty takes no part in the stamping. -/
theorem clean_follows {α : Type} {program : Prog I α} {stage : Stamper Hlc}
    (hwrites : stage.Writes)
    (h : program.Only fun action => ∀ key put, rows.does action = .put key put →
      (rows.localRow put).dirty = false) :
    program.Follows (rows.register key).Next (fun _ _ => True) stage := by
  refine Register.follows_of_only hwrites (h.mono fun action hclean stamp hputs => ?_)
  obtain ⟨put, hput, -, hdirty⟩ := register_puts.mp hputs
  cases hdirty.symm.trans (hclean key put hput)

end Rows

/-- The row that was read gives way to the change: it is absent, older, or clean at the
very version. -/
def GivesWay (existing : Option LocalRow) (incoming : ChangeEvent) : Prop :=
  ∀ row, existing = some row →
    row.version < incoming.version ∨ row.version = incoming.version ∧ row.dirty = false

/-- It does so as a conflict. -/
def IsOutrun (existing : Option LocalRow) (incoming : ChangeEvent) : Prop :=
  ∃ row, existing = some row ∧ row.dirty = true ∧ row.version < incoming.version

theorem IsOutrun.givesWay {existing : Option LocalRow} {incoming : ChangeEvent}
    (h : IsOutrun existing incoming) : GivesWay existing incoming := by
  obtain ⟨row, rfl, -, hlt⟩ := h
  rintro other ⟨⟩
  exact Or.inl hlt

theorem GivesWay.le {existing : Option LocalRow} {incoming : ChangeEvent}
    (h : GivesWay existing incoming) {row : LocalRow} (hrow : existing = some row) :
    row.version ≤ incoming.version :=
  (h row hrow).elim le_of_lt fun hsame => hsame.1.le

/-- How far a delivery has come, and the row it decides on. -/
inductive DeliveryStage where
  | entering
  | observed
  | decided (existing : Option LocalRow)
  | adopted (existing : Option LocalRow)

namespace DeliveryStage

/-- What a delivery has read, once it has. -/
def reader : DeliveryStage → Reader Hlc
  | entering | observed => .fresh
  | decided existing => .holding (existing.map (·.version))
  | adopted _ => .done

/-- Where a delivery stands with the clock, which may have observed others before. -/
def stamper (incoming : ChangeEvent) (before : Option Hlc) : DeliveryStage → Stamper Hlc
  | entering => .feeding before
  | _ => .feeding (some incoming.version)

end DeliveryStage

namespace Rows

variable {I : Interface} {ρ : Type} (rows : Rows I ρ)

/-- What a delivery of the change does to its row, the one under this key. -/
def Delivers (key : String) (incoming : ChangeEvent) : Stages I DeliveryStage :=
  fun stage action reply after =>
    match rows.does action with
    | .observe remote => stage = .entering ∧ remote = incoming.version ∧ after = .observed
    | .read key' look =>
        key' = key ∧ stage = .observed ∧ after = .decided ((look reply).map rows.localRow)
    | .put key' put =>
        key' = key ∧ (rows.localRow put).version = incoming.version ∧
          (rows.localRow put).dirty = false ∧ ∃ existing,
            stage = .decided existing ∧ GivesWay existing incoming ∧ after = .adopted existing
    | .retire => after = stage ∧ ∃ existing, stage = .adopted existing ∧ IsOutrun existing incoming
    | .other => after = stage
    | .stamp _ | .restart => False

variable {rows} {key : String} {incoming : ChangeEvent} {stage after : DeliveryStage}
  {action : I.Action} {reply : I.Reply action}

/-- A delivery reads its row and puts where that gives way. -/
theorem Delivers.reader (h : rows.Delivers key incoming stage action reply after) :
    stage.reader.Next (rows.cell key) incoming.version action reply after.reader := by
  unfold Delivers at h
  simp only [Reader.Next, cell]
  split at h
  · rename_i hdoes
    obtain ⟨rfl, -, rfl⟩ := h
    simp [hdoes, DeliveryStage.reader]
  · rename_i hdoes
    obtain ⟨rfl, rfl, rfl⟩ := h
    simp [hdoes, DeliveryStage.reader, Function.comp_def]
  · rename_i hdoes
    obtain ⟨rfl, hversion, -, existing, rfl, hgives, rfl⟩ := h
    have hread : ∀ row, existing = some row → row.version ≤ incoming.version :=
      fun _ hrow => hgives.le hrow
    simpa [hdoes, DeliveryStage.reader, hversion] using hread
  · rename_i hdoes
    simp [hdoes, h.1]
  · rename_i hdoes
    simp [hdoes, h]
  · exact h.elim
  · exact h.elim

/-- A delivery of another row leaves this one alone. -/
theorem Delivers.elsewhere {other : String} (hne : other ≠ key)
    (h : rows.Delivers other incoming stage action reply after) :
    Reader.fresh.Next (rows.cell key) incoming.version action reply .fresh := by
  unfold Delivers at h
  simp only [Reader.Next, cell]
  split at h
  · rename_i hdoes
    simp [hdoes]
  · rename_i hdoes
    simp [hdoes, h.1, hne]
  · rename_i hdoes
    simp [hdoes, h.1, hne]
  · rename_i hdoes
    simp [hdoes]
  · rename_i hdoes
    simp [hdoes]
  · exact h.elim
  · exact h.elim

/-- A delivery puts what the clock has observed. -/
theorem Delivers.stamper (before : Option Hlc) {other : String}
    (h : rows.Delivers other incoming stage action reply after) :
    (rows.register key).Next (stage.stamper incoming before) action reply
      (after.stamper incoming before) := by
  obtain ⟨observed, hstage⟩ : ∃ observed, stage.stamper incoming before = .feeding observed := by
    cases stage <;> exact ⟨_, rfl⟩
  unfold Delivers at h
  split at h
  · rename_i hdoes
    obtain ⟨rfl, rfl, rfl⟩ := h
    simp [Register.Next, register, hdoes, DeliveryStage.stamper]
  · rename_i hdoes
    obtain ⟨-, rfl, rfl⟩ := h
    simp [Register.Next, register, hdoes, DeliveryStage.stamper]
  · rename_i hdoes
    obtain ⟨-, hversion, hclean, existing, rfl, -, rfl⟩ := h
    simp [Register.Next, register, hdoes, DeliveryStage.stamper, hversion,
      hclean]
  · rename_i hdoes
    rw [h.1, hstage]
    simp [Register.Next, register, hdoes]
  · rename_i hdoes
    rw [h, hstage]
    simp [Register.Next, register, hdoes]
  · exact h.elim
  · exact h.elim

end Rows

end ZedSync
