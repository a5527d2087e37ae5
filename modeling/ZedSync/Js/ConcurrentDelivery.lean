import Mathlib.Order.Bounds.Basic
import ZedSync.DeliveryStages

/-!
Concurrent calls of `applyChange` for one clean row. Each call reads the row,
decides, and puts in separate awaits, so a decision can be older than the row
it is carried out on. The row ends at the newest version exactly in the
schedules where no call puts that read the row before the newest version came.
-/

namespace ZedSync.Js

open Async

/-- The action puts an older version on a row that is at `newest` already. -/
def Overtakes (table id : String) (newest : Hlc) (action : Action) (world : World) : Prop :=
  ∃ stored, action.puts = some (table, id, stored) ∧ stored.rowMeta.version < newest ∧
    world.storedVersion table id = some newest

namespace DeliveryStage

variable {incoming : ChangeEvent} {table id : String} {stage after : DeliveryStage} {world : World}
  {action : Action} {input : Input}

/-- What a delivery has put it has put once and for all. -/
theorem next_adopted {existing : Option LocalRow} {after : DeliveryStage} {action : Action}
    {reply : action.Reply} (h : Next incoming (.adopted existing) action reply after) :
    after = .adopted existing := by
  cases action <;> first | exact h.elim | exact h.2

/-- A put of a delivery is the one it decided on. -/
theorem next_puts (hnext : Next incoming stage action (perform action input world).1 after)
    (hputs : action.puts.isSome = true) :
    ∃ existing, stage = .decided existing ∧ GivesWay existing incoming ∧
      action.Adopts incoming ∧ after = .adopted existing := by
  rcases next_cases hnext with ⟨-, rfl, -⟩ | hput | ⟨hpasses, -⟩
  · cases hputs
  · exact hput
  · cases action <;> first | exact hpasses.elim | cases hputs

theorem adopts_version (hadopts : action.Adopts incoming) :
    (perform action input world).2.storedVersion incoming.table incoming.id =
      some incoming.version := by
  obtain ⟨stored, hputs, -, hversion, -⟩ := hadopts
  simp [World.storedVersion, (perform_puts hputs input world).1, hversion]

/-- Only its put moves the row of a delivery. -/
theorem next_version (hrow : incoming.table = table ∧ incoming.id = id)
    (hnext : Next incoming stage action (perform action input world).1 after) :
    (perform action input world).2.storedVersion table id = world.storedVersion table id ∨
      ∃ existing, stage = .decided existing ∧ GivesWay existing incoming ∧
        action.Adopts incoming ∧ after = .adopted existing ∧
        (perform action input world).2.storedVersion table id = some incoming.version := by
  obtain ⟨rfl, rfl⟩ := hrow
  rcases next_cases hnext with ⟨-, rfl, -⟩ | ⟨existing, hstage, hgives, hadopts, hafter⟩ |
    ⟨hpasses, -⟩
  · exact Or.inl rfl
  · exact Or.inr ⟨existing, hstage, hgives, hadopts, hafter, adopts_version hadopts⟩
  · left
    simp only [World.storedVersion, Store.getRow, hpasses.rows]

end DeliveryStage

namespace ConcurrentDelivery

section

variable (table id : String) (newest : Hlc)

/-- Changes are admitted, and the row is absent, or clean at most at `newest`. -/
structure Calm (world : World) : Prop where
  admits : world.refusal .canReceiveChanges = none
  clean : ∀ stored, world.store.getRow table id = some stored → stored.rowMeta.dirty = false
  bounded : ∀ stored, world.store.getRow table id = some stored →
    stored.rowMeta.version ≤ newest

/-- What each call guarantees the others: the row stays calm, and once it is at
`newest` it stays there. -/
def Keeps (before after : World) : Prop :=
  Calm table id newest before →
    Calm table id newest after ∧
      (before.storedVersion table id = some newest →
        after.storedVersion table id = some newest)

variable {table id newest}

theorem keeps_refl (world : World) : Keeps table id newest world world :=
  fun hcalm => ⟨hcalm, fun h => h⟩

theorem keeps_trans {a b c : World} (hab : Keeps table id newest a b)
    (hbc : Keeps table id newest b c) : Keeps table id newest a c := by
  intro hcalm
  obtain ⟨hcalm, hfirst⟩ := hab hcalm
  obtain ⟨hcalm, hsecond⟩ := hbc hcalm
  exact ⟨hcalm, hsecond ∘ hfirst⟩

theorem keeps_of_same {before after : World} (hstore : after.store = before.store)
    (hlifecycle : after.lifecycle = before.lifecycle) :
    Keeps table id newest before after := by
  intro hcalm
  refine ⟨⟨?_, ?_, ?_⟩, ?_⟩
  · rw [World.refusal, hlifecycle]
    exact hcalm.admits
  · rw [hstore]
    exact hcalm.clean
  · rw [hstore]
    exact hcalm.bounded
  · simp only [World.storedVersion, hstore, imp_self]

/-- A put of a clean row that does not overtake. -/
theorem keeps_put {action : Action} {stored : StoredRow} {before after : World}
    (hputs : action.puts = some (table, id, stored))
    (hafter : after.store = before.store.setRow table id stored)
    (hlifecycle : after.lifecycle = before.lifecycle)
    (hclean : stored.rowMeta.dirty = false) (hle : stored.rowMeta.version ≤ newest)
    (hmeets : ¬ Overtakes table id newest action before) :
    Keeps table id newest before after := by
  intro hcalm
  refine ⟨⟨?_, ?_, ?_⟩, ?_⟩
  · rw [World.refusal, hlifecycle]
    exact hcalm.admits
  · intro current hcurrent
    rw [hafter, Store.getRow_setRow_self] at hcurrent
    exact Option.some.inj hcurrent ▸ hclean
  · intro current hcurrent
    rw [hafter, Store.getRow_setRow_self] at hcurrent
    exact Option.some.inj hcurrent ▸ hle
  · intro hat
    have hequal : stored.rowMeta.version = newest := by
      by_contra hne
      exact hmeets ⟨stored, hputs, lt_of_le_of_ne hle hne, hat⟩
    simp [World.storedVersion, hafter, hequal]

end

variable {newest : Hlc}

/-- The specification of a call, or of a rest of one: a call that delivers
`newest` leaves the row there. -/
abbrev Spec (change : ChangeEvent) (newest : Hlc) (program : Prog session (Outcome α))
    (world : World) : Prop :=
  program.Sat (fun action world => ¬ Overtakes change.table change.id newest action world)
    (Keeps change.table change.id newest) (Keeps change.table change.id newest)
    (fun _ (later : World) => change.version = newest →
      later.storedVersion change.table change.id = some newest) world

theorem ret_spec {change : ChangeEvent} (value : Outcome α) {world : World}
    (hcalm : Calm change.table change.id newest world)
    (hat : change.version = newest →
      world.storedVersion change.table change.id = some newest) :
    Spec change newest (.ret value) world := by
  intro later hlater hequal
  exact (hlater hcalm).2 (hat hequal)

theorem adoptAs_spec {change : ChangeEvent} (outcome : ChangeOutcome) {world : World}
    (hop : change.op = .upsert) (hle : change.version ≤ newest)
    (hcalm : Calm change.table change.id newest world) :
    Spec change newest (adoptAs change outcome) world := by
  simp only [Spec, adoptAs, adopt, act, hop, reduceCtorEq, if_false, Prog.call_bind,
    Prog.ret_bind, Prog.pure_eq]
  intro reading hreading _ input
  refine ⟨keeps_refl _, ?_⟩
  intro before hbefore hmeets _
  have hput : Keeps change.table change.id newest before
      (before.putRow change.table change.id change.row
        { version := change.version, dirty := false, syncedAtMs := some input.now }) :=
    keeps_put rfl rfl rfl rfl hle hmeets
  refine ⟨hput, ret_spec _ (hput (hbefore (hreading hcalm).1).1).1 ?_⟩
  intro hequal
  simp [World.storedVersion, perform, World.putRow, Store.putRow, hequal]

/-- The decision, taken on the row of a calm world. -/
theorem applyDecision_spec (config : ClientConfig) {change : ChangeEvent} {world : World}
    (hop : change.op = .upsert) (hle : change.version ≤ newest)
    (hcalm : Calm change.table change.id newest world) :
    Spec change newest
      (applyDecision config change (world.store.getRow change.table change.id)) world := by
  cases hstored : world.store.getRow change.table change.id with
  | none =>
      simp only [applyDecision, Option.map_none, reconcile, hop, if_true]
      exact adoptAs_spec _ hop hle hcalm
  | some stored =>
      have hclean := hcalm.clean stored hstored
      have hbounded := hcalm.bounded stored hstored
      rcases lt_trichotomy change.version stored.rowMeta.version with holder | hsame | hnewer
      · have hdecision : reconcile (some stored.localRow) change = .ignore .stale :=
          reconcile_older holder
        simp only [applyDecision, Option.map_some, hdecision]
        refine ret_spec _ hcalm fun hequal => ?_
        exact absurd hbounded (not_le.mpr (hequal ▸ holder))
      · have hdecision : reconcile (some stored.localRow) change = .ignore .alreadyApplied :=
          reconcile_same hsame
        simp only [applyDecision, Option.map_some, hdecision, hclean, Bool.not_false, if_true]
        exact adoptAs_spec _ hop hle hcalm
      · have hdecision : reconcile (some stored.localRow) change = .apply := by
          rw [reconcile_newer hnewer]
          simp [StoredRow.localRow, hclean]
        simp only [applyDecision, Option.map_some, hdecision]
        exact adoptAs_spec _ hop hle hcalm

theorem applyChange_spec (config : ClientConfig) {change : ChangeEvent} {world : World}
    (hallows : config.allows change.table) (hop : change.op = .upsert)
    (hle : change.version ≤ newest) (hcalm : Calm change.table change.id newest world) :
    Spec change newest (applyChange config change) world := by
  simp only [Spec, applyChange, requireCapability, act, hallows, Prog.call_bind,
    Prog.ret_bind, Prog.pure_eq]
  intro entering hentering _ input
  have hadmits := (hentering hcalm).1.admits
  refine ⟨keeps_refl _, ?_⟩
  simp only [perform, hadmits, Bool.not_true, Bool.false_eq_true, if_false]
  intro observing hobserving _ input
  have hobserved : Keeps change.table change.id newest observing
      (session.perform (.observe change.version) input observing).2 :=
    keeps_of_same rfl rfl
  refine ⟨hobserved, ?_⟩
  intro reading hreading _ _
  refine ⟨keeps_refl _, ?_⟩
  have hcalm := (hobserved (hobserving (hentering hcalm).1).1).1
  exact applyDecision_spec config hop hle (hreading hcalm).1

end ConcurrentDelivery

open ConcurrentDelivery

/-- The version a row has, and the versions delivered for it. -/
def World.versionsFor (world : World) (table id : String) (changes : List ChangeEvent) :
    Set Hlc :=
  {version | world.storedVersion table id = some version ∨
    ∃ change ∈ changes, change.version = version}

/-- Where no older version is put over the newest, the row ends at the newest. -/
theorem ConcurrentDelivery.reaches_newest (config : ClientConfig) (table id : String)
    (changes : List ChangeEvent) (world : World) (newest : Hlc)
    (schedule : List (Pool.Turn session))
    (hrow : ∀ change ∈ changes,
      change.table = table ∧ change.id = id ∧ change.op = .upsert)
    (hclean : ∀ stored, world.store.getRow table id = some stored →
      stored.rowMeta.dirty = false)
    (hallows : config.allows table) (hadmits : world.refusal .canReceiveChanges = none)
    (hnewest : IsGreatest (world.versionsFor table id changes) newest) :
    let pool : Pool session (Outcome ChangeOutcome) :=
      { world := world, threads := changes.map (applyChange config) }
    pool.Meets (fun action world => ¬ Overtakes table id newest action world) schedule →
      (pool.run schedule).Done →
        (pool.run schedule).world.storedVersion table id = some newest := by
  intro pool hmeets hdone
  obtain ⟨hmember, hgreatest⟩ := hnewest
  have hcalm : Calm table id newest world := by
    refine ⟨hadmits, hclean, fun stored hstored => hgreatest (Or.inl ?_)⟩
    simp [World.storedVersion, hstored]
  have hsat : ∀ (i : Nat) (program : Prog session (Outcome ChangeOutcome)),
      pool.threads[i]? = some program →
      program.Sat (fun action world => ¬ Overtakes table id newest action world)
        (Keeps table id newest) (Keeps table id newest)
        (fun _ (later : World) => changes[i]?.map (·.version) = some newest →
          later.storedVersion table id = some newest) world := by
    intro i program hprogram
    obtain ⟨change, hchange, rfl⟩ := by simpa [pool] using hprogram
    obtain ⟨rfl, rfl, hop⟩ := hrow change (List.mem_of_getElem? hchange)
    have hle : change.version ≤ newest :=
      hgreatest (Or.inr ⟨change, List.mem_of_getElem? hchange, rfl⟩)
    simpa [hchange] using applyChange_spec config hallows hop hle hcalm
  obtain ⟨hobserved, hthreads⟩ := Pool.sat_run
    (R := fun _ => Keeps table id newest) (G := fun _ => Keeps table id newest)
    (T := Keeps table id newest)
    (fun _ => keeps_refl) (fun _ => keeps_trans) (fun _ _ _ _ _ h => h)
    keeps_refl keeps_trans (fun _ _ _ h => h) pool schedule hsat hmeets
  rcases hmember with hinitial | ⟨change, hmem, hversion⟩
  · exact (hobserved hcalm).2 hinitial
  · obtain ⟨i, hchange⟩ := List.mem_iff_getElem?.mp hmem
    have hlength : i < (pool.run schedule).threads.length := by
      rw [Pool.run_length]
      simpa [pool] using (List.getElem?_eq_some_iff.mp hchange).1
    obtain ⟨value, hvalue⟩ := Prog.eq_ret_of_finished (hdone _ (List.getElem_mem hlength))
    have hspec := hthreads i _ (List.getElem?_eq_getElem hlength)
    rw [hvalue] at hspec
    exact hspec _ (keeps_refl _) (by simp [hchange, hversion])

namespace ConcurrentDelivery

section Order

variable {changes : List ChangeEvent} {table id : String} {newest : Hlc}

/-- A call at its stage, with the change it delivers. -/
def Next : Stages session (ChangeEvent × DeliveryStage) := fun stage action reply after =>
  DeliveryStage.Next stage.1 stage.2 action reply after.2 ∧ after.1 = stage.1

theorem follows_applyChange (config : ClientConfig) (change : ChangeEvent) :
    (applyChange config change).Follows Next (fun _ _ => True) (change, .entering) :=
  (DeliveryStage.leads_applyChange config change).embed (Prod.mk change) (fun h => ⟨h, rfl⟩)
    fun _ _ h => h

/-- What a call knows: the row as it stands, once it has decided, and that nobody has
missed the newest version before its own call puts it. -/
structure Knows (changes : List ChangeEvent) (table id : String) (newest : Hlc) (thread : Nat)
    (stage : ChangeEvent × DeliveryStage) (state : World × Missed (Option Hlc)) : Prop where
  delivers : changes[thread]? = some stage.1
  sees : stage.2.reader.Sees (rowCell table id) thread state.1 state.2
  unmissed : stage.1.version = newest → (∀ existing, stage.2 ≠ .adopted existing) →
    ∀ other, some newest ∉ state.2 other

/-- The calls deliver different versions of one row. -/
structure Delivers (changes : List ChangeEvent) (table id : String) : Prop where
  row : ∀ change ∈ changes, change.table = table ∧ change.id = id
  distinct : (changes.map (·.version)).Nodup

theorem Delivers.same (h : Delivers changes table id) {i j : Nat} {first second : ChangeEvent}
    (hfirst : changes[i]? = some first) (hsecond : changes[j]? = some second)
    (hversion : first.version = second.version) : i = j := by
  have hi : i < (changes.map (·.version)).length := by
    simpa using (List.getElem?_eq_some_iff.mp hfirst).1
  apply (List.getElem?_inj hi h.distinct).mp
  simp [hfirst, hsecond, hversion]

variable {thread : Nat} {stage after : ChangeEvent × DeliveryStage} {action : Action}
  {input : Input} {world : World} {missed : Missed (Option Hlc)}

theorem Delivers.reads (h : Delivers changes table id)
    (hdelivers : changes[thread]? = some stage.1)
    {reply : action.Reply} (hnext : Next stage action reply after) :
    stage.2.reader.Next (rowCell table id) stage.1.version action reply after.2.reader := by
  obtain ⟨rfl, rfl⟩ := h.row _ (List.mem_of_getElem? hdelivers)
  exact (DeliveryStage.next_delivers hnext.1).reader

/-- The newest version comes by the put of its own call only. -/
theorem Delivers.newest_missed (h : Delivers changes table id)
    (hdelivers : changes[thread]? = some stage.1)
    (hnext : Next stage action (perform action input world).1 after) {other : Nat}
    (hmissed : some newest ∈
      (rowCell table id).window.mark thread action input world missed other) :
    some newest ∈ missed other ∨
      stage.1.version = newest ∧ ∃ existing, after.2 = .adopted existing := by
  rcases Window.of_mem_mark hmissed with hold | hbrings
  · exact Or.inl hold
  · have hrow := h.row _ (List.mem_of_getElem? hdelivers)
    rcases DeliveryStage.next_version hrow hnext.1 with hsame |
      ⟨existing, -, -, -, hafter, hversion⟩
    · have hsame : (rowCell table id).storedVersion (perform action input world).2 =
          (rowCell table id).storedVersion world := hsame
      simp [Cell.window, cellWindow, hsame] at hbrings
    · refine Or.inr ⟨?_, existing, hafter⟩
      have hversion : (rowCell table id).storedVersion (perform action input world).2 =
          some stage.1.version := hversion
      simp only [Cell.window, cellWindow, hversion] at hbrings
      split at hbrings
      · cases hbrings
      · exact (Option.some.inj (List.mem_singleton.mp hbrings)).symm

/-- What the calls know is kept whatever the schedule. -/
def upkeep (h : Delivers changes table id) (newest : Hlc)
    (C : Missed (Option Hlc) → Nat → Action → Input → World → Prop) :
    Upkeep session (ChangeEvent × DeliveryStage) (Missed (Option Hlc)) C where
  next := Next
  mark := (rowCell table id).window.mark
  Inv _ := True
  Knows := Knows changes table id newest
  own := by
    intro thread stage action input state after _ hknows _ hnext
    have hreads := h.reads hknows.delivers hnext
    refine ⟨trivial, hnext.2 ▸ hknows.delivers, hknows.sees.own hreads, ?_⟩
    intro hversion hunadopted other hmissed
    rw [hnext.2] at hversion
    rcases h.newest_missed hknows.delivers hnext hmissed with hold | ⟨-, existing, hadopted⟩
    · refine hknows.unmissed hversion (fun existing hstage => ?_) other hold
      exact hunadopted existing (DeliveryStage.next_adopted (hstage ▸ hnext.1))
    · exact hunadopted existing hadopted
  others := by
    intro thread stage action input state after _ hknows _ hnext other seen hne hother
    refine ⟨hother.delivers, hother.sees.other hne, ?_⟩
    intro hversion hunadopted third hmissed
    rcases h.newest_missed hknows.delivers hnext hmissed with hold | ⟨hnewest, -⟩
    · exact hother.unmissed hversion hunadopted third hold
    · exact hne (h.same hother.delivers hknows.delivers (hversion.trans hnewest.symm))

/-- The call has not missed the newest version since it read the row. -/
def PutsAware (newest : Hlc) (missed : Missed (Option Hlc)) (thread : Nat) (action : Action)
    (_ : Input) (_ : World) : Prop :=
  action.puts.isSome = true → some newest ∉ missed thread

instance (newest : Hlc) (missed : Missed (Option Hlc)) (thread : Nat) (action : Action)
    (input : Input) (world : World) :
    Decidable (PutsAware newest missed thread action input world) :=
  inferInstanceAs (Decidable (_ → _))

/-- Such a call does not overtake: it read the newest version, and then puts none below it. -/
theorem Knows.not_overtakes
    (hknows : Knows changes table id newest thread stage (world, missed))
    (hnext : Next stage action (perform action input world).1 after)
    (haware : PutsAware newest missed thread action input world) :
    ¬ Overtakes table id newest action world := by
  rintro ⟨stored, hputs, holder, hnewest⟩
  have hsome : action.puts.isSome = true := by simp [hputs]
  obtain ⟨existing, hstage, hgives, hadopts, -⟩ := DeliveryStage.next_puts hnext.1 hsome
  obtain ⟨put, hput, -, hversion, -⟩ := hadopts
  obtain ⟨-, -, rfl⟩ : _ ∧ _ ∧ put = stored := by simpa using hput.symm.trans hputs
  have hsees : world.storedVersion table id = latest (existing.map (·.version)) (missed thread) :=
    hknows.sees _ (congrArg DeliveryStage.reader hstage)
  rcases latest_eq (existing.map (·.version)) (missed thread) with ⟨hread, -⟩ | hlast
  · rw [hnewest, hread] at hsees
    obtain ⟨row, hexisting, rfl⟩ := Option.map_eq_some_iff.mp hsees.symm
    exact absurd holder (not_lt.mpr (hversion ▸ hgives.le hexisting))
  · rw [← hsees, hnewest] at hlast
    exact haware hsome hlast

/-- Once the newest version is lost, it is lost for good: its call has put already. -/
def lost (h : Delivers changes table id) (newest : Hlc) :
    Upkeep session (ChangeEvent × DeliveryStage) Unit fun _ _ _ _ _ => True where
  next := Next
  mark _ _ _ _ history := history
  Inv state := state.1.storedVersion table id ≠ some newest
  Knows thread stage _ := changes[thread]? = some stage.1 ∧
    (stage.1.version = newest → ∃ existing, stage.2 = .adopted existing)
  own := by
    intro thread stage action input state after hlost hknows _ hnext
    have hrow := h.row _ (List.mem_of_getElem? hknows.1)
    refine ⟨?_, hnext.2 ▸ hknows.1, fun hversion => ?_⟩
    · rcases DeliveryStage.next_version hrow hnext.1 with hsame |
        ⟨existing, hdecided, -, -, -, hversion⟩
      · exact fun hnewest => hlost (hsame.symm.trans hnewest)
      · intro hnewest
        obtain ⟨_, hadopted⟩ := hknows.2 (Option.some.inj (hversion.symm.trans hnewest))
        cases hdecided.symm.trans hadopted
    · obtain ⟨existing, hadopted⟩ := hknows.2 (hnext.2 ▸ hversion)
      exact ⟨existing, DeliveryStage.next_adopted (hadopted ▸ hnext.1)⟩
  others := fun _ _ _ _ _ _ _ hother => hother

variable {pool : Pool session α}

/-- A call that puts what it decided on before the newest version came loses it. -/
theorem final_lost (h : Delivers changes table id)
    (hkept : Pool.Kept (upkeep h newest fun _ _ _ _ _ => True) pool missed)
    {turn : Pool.Turn session} {action : Action} {rest : action.Reply → Prog session α}
    (hthread : pool.threads[turn.1]? = some (.call action rest))
    (hputs : action.puts.isSome = true) (hmissed : some newest ∈ missed turn.1)
    (schedule : List (Pool.Turn session)) :
    ((pool.step turn).run schedule).world.storedVersion table id ≠ some newest := by
  have hput : ∀ {i : Nat} {stage : ChangeEvent × DeliveryStage},
      Knows changes table id newest i stage (pool.world, missed) →
        stage.1.version = newest → ∃ existing, stage.2 = .adopted existing := by
    intro i stage hknows hversion
    by_contra hunadopted
    exact hknows.unmissed hversion (fun existing hstage => hunadopted ⟨existing, hstage⟩) _ hmissed
  obtain ⟨stage, hfollows, hknows⟩ := hkept.threads turn.1 _ hthread
  obtain ⟨after, hnext, hrest⟩ := hfollows (perform action turn.2 pool.world).1
  have hlost : Pool.Kept (lost h newest) (pool.step turn) () := by
    rw [Pool.step_call hthread]
    obtain ⟨existing, hdecided, -, hadopts, hafter⟩ := DeliveryStage.next_puts hnext.1 hputs
    have hversion : (perform action turn.2 pool.world).2.storedVersion table id =
        some stage.1.version := by
      obtain ⟨rfl, rfl⟩ := h.row _ (List.mem_of_getElem? hknows.delivers)
      exact DeliveryStage.adopts_version hadopts
    refine ⟨fun hnewest => ?_, fun i program hprogram => ?_⟩
    · obtain ⟨_, hadopted⟩ := hput hknows (Option.some.inj (hversion.symm.trans hnewest))
      cases hdecided.symm.trans hadopted
    · rcases Pool.getElem?_set_some hthread hprogram with ⟨rfl, rfl⟩ | ⟨-, hother⟩
      · exact ⟨after, hrest, hnext.2 ▸ hknows.delivers, fun _ => ⟨existing, hafter⟩⟩
      · obtain ⟨seen, hseen, hknown⟩ := hkept.threads i program hother
        exact ⟨seen, hseen, hknown.delivers, hput hknown⟩
  exact (hlost.run (Pool.watched_any _ _ _ _)).inv

/-- A row that ends at the newest version was never put by a call that had missed it. -/
theorem watched_of_final (h : Delivers changes table id) {schedule : List (Pool.Turn session)}
    (hkept : Pool.Kept (upkeep h newest fun _ _ _ _ _ => True) pool missed)
    (hfinal : (pool.run schedule).world.storedVersion table id = some newest) :
    pool.Watched (rowCell table id).window.mark (PutsAware newest) schedule missed := by
  induction schedule generalizing pool missed with
  | nil => trivial
  | cons turn schedule ih =>
      refine ⟨fun action rest hthread hputs hmissed => ?_, ?_⟩
      · exact final_lost h hkept hthread hputs hmissed schedule hfinal
      · exact ih (hkept.step fun _ _ _ => trivial) hfinal

end Order

end ConcurrentDelivery

open ConcurrentDelivery
/-- Any number of concurrent calls for one clean or absent row, with different versions and
in any interleaving, leave the row at the newest version once all have finished, exactly
when no call puts that read the row before the newest version came. -/
theorem concurrent_applyChange_reaches_newest_iff (config : ClientConfig) (table id : String)
    (changes : List ChangeEvent) (world : World) (newest : Hlc)
    (schedule : List (Pool.Turn session))
    (hrow : ∀ change ∈ changes,
      change.table = table ∧ change.id = id ∧ change.op = .upsert)
    (hdistinct : (changes.map (·.version)).Nodup)
    (hclean : ∀ stored, world.store.getRow table id = some stored →
      stored.rowMeta.dirty = false)
    (hallows : config.allows table) (hadmits : world.refusal .canReceiveChanges = none)
    (hnewest : IsGreatest (world.versionsFor table id changes) newest) :
    let pool : Pool session (Outcome ChangeOutcome) :=
      { world := world, threads := changes.map (applyChange config) }
    (pool.run schedule).Done →
      ((pool.run schedule).world.storedVersion table id = some newest ↔
        pool.Watched (rowCell table id).window.mark (PutsAware newest) schedule fun _ => []) := by
  intro pool hdone
  have hdelivers : Delivers changes table id :=
    ⟨fun change hchange => ⟨(hrow change hchange).1, (hrow change hchange).2.1⟩, hdistinct⟩
  have hkept : ∀ C, Pool.Kept (upkeep hdelivers newest C) pool fun _ => [] := by
    intro C
    refine ⟨trivial, fun i program hprogram => ?_⟩
    obtain ⟨change, hchange, rfl⟩ := by simpa [pool] using hprogram
    exact ⟨(change, .entering), follows_applyChange config change, hchange, nofun, nofun⟩
  constructor
  · exact watched_of_final hdelivers (hkept _)
  · intro hwatched
    refine reaches_newest config table id changes world newest schedule hrow hclean hallows
      hadmits hnewest ?_ hdone
    refine (hkept (PutsAware newest)).heeds ?_ hwatched
    exact fun _ hknows haware hnext => hknows.not_overtakes hnext haware

def stampAt (wallMs : Nat) : Hlc := { wallMs := wallMs, counter := 0, actor := "peer" }

def upsertAt (wallMs : Nat) : ChangeEvent :=
  { table := "todos", op := .upsert, id := "a", version := stampAt wallMs,
    row := some (.num wallMs), writeKey := none }

/-- One frame with two changes for a row the replica does not have. -/
def frame : Pool session (Outcome ChangeOutcome) :=
  { world := { clock := Clock.fresh "device" },
    threads := [upsertAt 2, upsertAt 1].map (applyChange {}) }

theorem frame_newest :
    IsGreatest (frame.world.versionsFor "todos" "a" [upsertAt 2, upsertAt 1]) (stampAt 2) := by
  refine ⟨Or.inr ⟨upsertAt 2, by simp, rfl⟩, ?_⟩
  rintro version (hinitial | ⟨change, hchange, rfl⟩)
  · cases hinitial
  · simp only [List.mem_cons, List.not_mem_nil, or_false] at hchange
    rcases hchange with rfl | rfl <;> decide

/-- The second call reads after the first has put. -/
theorem frame_in_turn :
    (frame.run (turns 0 5 ++ turns 1 5)).world.storedVersion "todos" "a" = some (stampAt 2) :=
  (concurrent_applyChange_reaches_newest_iff {} "todos" "a" [upsertAt 2, upsertAt 1]
    frame.world (stampAt 2) (turns 0 5 ++ turns 1 5) (by simp [upsertAt]) (by decide)
    (fun _ hstored => by cases hstored) rfl rfl frame_newest (by decide)).mpr (by decide)

/-- Both calls read the absent row before either puts, and the older put lands
last. -/
theorem older_delivery_lands_last :
    let schedule := turns 0 2 ++ turns 1 2 ++ turns 0 1 ++ turns 1 1 ++ turns 0 2 ++ turns 1 2
    (frame.run schedule).Done ∧
      (frame.run schedule).world.storedVersion "todos" "a" = some (stampAt 1) ∧
      IsGreatest (frame.world.versionsFor "todos" "a" [upsertAt 2, upsertAt 1]) (stampAt 2) ∧
      stampAt 1 ≠ stampAt 2 :=
  ⟨by decide, by decide, frame_newest, by decide⟩

end ZedSync.Js
