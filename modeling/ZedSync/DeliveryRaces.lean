import ZedSync.DeliveryStages

/-!
A delivery beside whatever else runs on a device. It decides on the row it read, and
acts on that some awaits later: it puts its change, and on a conflict it retires the
queued writes of the row. A write that it should spare is in its way in three ways only.
The write is there at the read, and the change outruns the row; its row is put after the
read, or it is queued after the read.
-/

namespace ZedSync

open Async

/-- A row and the versions of its queued writes, in the worlds of a device. Only a put
lowers the row, and only an enqueue adds to the queue. -/
structure Shelf (I : Interface) where
  row : I.World → Option LocalRow
  queued : I.World → List Hlc
  puts : I.Action → Option LocalRow
  reads : (action : I.Action) → Option (I.Reply action → Option LocalRow)
  queues : I.Action → Option Hlc
  retires : I.Action → I.World → List Hlc
  put_row : ∀ {action put}, puts action = some put → ∀ input world,
    row (I.perform action input world).2 = some put
  raised : ∀ {action}, puts action = none → ∀ input world current,
    row world = some current → ∃ later, row (I.perform action input world).2 = some later ∧
      current.version ≤ later.version
  looked : ∀ {action look}, reads action = some look → ∀ input world,
    look (I.perform action input world).1 = row world ∧
      (I.perform action input world).2 = world
  only_queued : ∀ {action input world version},
    version ∈ queued (I.perform action input world).2 →
      version ∈ queued world ∨ queues action = some version

/-- Where the two threads of a race stand: the delivery, and a write that puts its row
before it is queued. -/
inductive RaceStage where
  | delivering (stage : DeliveryStage)
  | fresh
  | holding (version : Hlc)
  | queued

/-- The stage is one of the write. -/
def RaceStage.Writes : RaceStage → Prop
  | .delivering _ => False
  | _ => True

/-- What a row became, and what was queued for it, after each thread read it. -/
structure Since where
  rows : Missed (Option LocalRow)
  queued : Missed Hlc

def Since.start : Since := ⟨fun _ => [], fun _ => []⟩

namespace Shelf

variable {I : Interface} {α : Type} (shelf : Shelf I) (incoming : ChangeEvent)
  (spared : Hlc → Prop)

def rowWindow : Window I (Option LocalRow) :=
  cellWindow (fun action => (shelf.reads action).isSome) shelf.row

def queueWindow : Window I Hlc where
  opens action := (shelf.reads action).isSome
  brings action _ _ := (shelf.queues action).toList

def mark (thread : Nat) (action : I.Action) (input : I.Input) (world : I.World)
    (since : Since) : Since where
  rows := shelf.rowWindow.mark thread action input world since.rows
  queued := shelf.queueWindow.mark thread action input world since.queued

/-- Where the change outruns the row that is read, no write that should be spared is in the
row or in the queue. -/
def ReadsClear (action : I.Action) (world : I.World) : Prop :=
  (shelf.reads action).isSome = true → IsOutrun (shelf.row world) incoming →
    (∀ row, shelf.row world = some row → ¬ spared row.version) ∧
      ∀ version ∈ shelf.queued world, ¬ spared version

/-- No such write came after the read: the row that is put over was not left by one since,
and no entry that is retired was queued since. -/
structure LeftAlone (since : Since) (thread : Nat) (action : I.Action) (world : I.World) :
    Prop where
  put : (shelf.puts action).isSome = true → ∀ row, latest none (since.rows thread) = some row →
    row.dirty = true → ¬ spared row.version
  retire : ∀ version ∈ shelf.retires action world, spared version →
    version ∉ since.queued thread

/-- The delivery of the thread `own` is undisturbed. -/
def Undisturbed (own : Nat) (since : Since) (thread : Nat) (action : I.Action) (_ : I.Input)
    (world : I.World) : Prop :=
  thread = own → shelf.ReadsClear incoming spared action world ∧
    shelf.LeftAlone spared since thread action world

/-- No such write is put over by a clean row, or retired from the queue. -/
structure Spares (action : I.Action) (world : I.World) : Prop where
  put : ∀ put, shelf.puts action = some put → put.dirty = false →
    ∀ row, shelf.row world = some row → row.dirty = true → ¬ spared row.version
  retire : ∀ version ∈ shelf.retires action world, version ∈ shelf.queued world →
    ¬ spared version

section Decide

variable {spared} [DecidablePred spared] {incoming}

instance (existing : Option LocalRow) : Decidable (IsOutrun existing incoming) :=
  decidable_of_iff (∃ row ∈ existing.toList, row.dirty = true ∧ row.version < incoming.version)
    (by simp [IsOutrun])

instance (action : I.Action) (world : I.World) :
    Decidable (shelf.ReadsClear incoming spared action world) :=
  decidable_of_iff ((shelf.reads action).isSome = true → IsOutrun (shelf.row world) incoming →
    (∀ row ∈ (shelf.row world).toList, ¬ spared row.version) ∧
      ∀ version ∈ shelf.queued world, ¬ spared version) (by simp [ReadsClear])

instance (since : Since) (thread : Nat) (action : I.Action) (world : I.World) :
    Decidable (shelf.LeftAlone spared since thread action world) :=
  decidable_of_iff
    (((shelf.puts action).isSome = true → ∀ row ∈ (latest none (since.rows thread)).toList,
      row.dirty = true → ¬ spared row.version) ∧
      ∀ version ∈ shelf.retires action world, spared version → version ∉ since.queued thread)
    ⟨fun h => ⟨by simpa using h.1, h.2⟩, fun h => ⟨by simpa using h.put, h.retire⟩⟩

instance (own : Nat) (since : Since) (thread : Nat) (action : I.Action) (input : I.Input)
    (world : I.World) :
    Decidable (shelf.Undisturbed incoming spared own since thread action input world) :=
  inferInstanceAs (Decidable (_ → _ ∧ _))

end Decide

/-- What a delivery does to the row: it reads it once, puts where that gives way, and retires
on a conflict. -/
def Next : Stages I DeliveryStage := fun stage action reply after =>
  ((∀ world, shelf.retires action world = []) ∨
    ∃ existing, stage = .adopted existing ∧ IsOutrun existing incoming) ∧
  match shelf.puts action, shelf.reads action with
  | some _, none =>
      ∃ existing, stage = .decided existing ∧ GivesWay existing incoming ∧
        after = .adopted existing
  | none, some look => stage = .observed ∧ after = .decided (look reply)
  | none, none => after = stage ∨ stage = .entering ∧ after = .observed
  | some _, some _ => False

/-- Where the row read was outrun, no write to spare was there: what is queued of them came
since. -/
def Fresh (existing : Option LocalRow) (thread : Nat) (state : I.World × Since) : Prop :=
  IsOutrun existing incoming → (∀ row, existing = some row → ¬ spared row.version) ∧
    ∀ version ∈ shelf.queued state.1, spared version → version ∈ state.2.queued thread

/-- A delivery keeps in sight what it decided on. -/
def Sees (thread : Nat) : DeliveryStage → I.World × Since → Prop
  | .decided existing, state =>
      shelf.row state.1 = latest existing (state.2.rows thread) ∧
        shelf.Fresh incoming spared existing thread state
  | .adopted existing, state => shelf.Fresh incoming spared existing thread state
  | _, _ => True

variable {shelf incoming spared} {thread other : Nat} {stage after : DeliveryStage}
  {action : I.Action} {input : I.Input} {world : I.World} {since : Since}
  {existing : Option LocalRow}

theorem Fresh.mark (h : shelf.Fresh incoming spared existing other (world, since))
    (hstays : other ≠ thread ∨ (shelf.reads action).isSome = false) :
    shelf.Fresh incoming spared existing other
      (moved shelf.mark thread action input (world, since)) := by
  intro houtrun
  obtain ⟨hrow, hqueued⟩ := h houtrun
  refine ⟨hrow, fun version hversion hspared => ?_⟩
  rcases shelf.only_queued hversion with hold | hnow
  · exact shelf.queueWindow.mem_mark (hqueued version hold hspared) hstays
  · have hbrings : version ∈ shelf.queueWindow.brings action input world := by
      simp [queueWindow, hnow]
    show version ∈ shelf.queueWindow.mark thread action input world since.queued other
    rcases hstays with hne | hstays
    · rw [Window.mark_other hne]
      exact List.mem_append_right _ hbrings
    · rw [Window.mark_stays hstays]
      exact List.mem_append_right _ hbrings

/-- What a delivery sees it sees after every action but a read of its own. -/
theorem Sees.mark (h : shelf.Sees incoming spared other stage (world, since))
    (hstays : other ≠ thread ∨ (shelf.reads action).isSome = false) :
    shelf.Sees incoming spared other stage
      (moved shelf.mark thread action input (world, since)) := by
  cases stage with
  | entering | observed => trivial
  | decided existing => exact ⟨latest_mark _ shelf.row h.1 hstays, h.2.mark hstays⟩
  | adopted existing => exact h.mark hstays

/-- What a delivery sees after its own action. -/
theorem Sees.own (h : shelf.Sees incoming spared thread stage (world, since))
    (hclear : shelf.ReadsClear incoming spared action world)
    (hnext : shelf.Next incoming stage action (I.perform action input world).1 after) :
    shelf.Sees incoming spared thread after
      (moved shelf.mark thread action input (world, since)) := by
  obtain ⟨-, hnext⟩ := hnext
  have hstays : shelf.reads action = none →
      thread ≠ thread ∨ (shelf.reads action).isSome = false :=
    fun hreads => Or.inr (by simp [hreads])
  split at hnext
  · rename_i hreads
    obtain ⟨existing, rfl, -, rfl⟩ := hnext
    exact h.2.mark (hstays hreads)
  · rename_i look _ hreads
    obtain ⟨rfl, rfl⟩ := hnext
    obtain ⟨hlook, hsame⟩ := shelf.looked hreads input world
    have hrows : shelf.rowWindow.opens action = true := by simp [rowWindow, cellWindow, hreads]
    rw [hlook]
    refine ⟨?_, fun houtrun => ?_⟩
    · show shelf.row (I.perform action input world).2 = latest (shelf.row world)
        (shelf.rowWindow.mark thread action input world since.rows thread)
      rw [Window.mark_opens hrows, hsame]
      rfl
    · obtain ⟨hrow, hqueued⟩ := hclear (by simp [hreads]) houtrun
      refine ⟨hrow, fun version hversion hspared => ?_⟩
      exact absurd hspared (hqueued version (hsame ▸ hversion))
  · rename_i hreads
    rcases hnext with rfl | ⟨rfl, rfl⟩
    · exact h.mark (hstays hreads)
    · trivial
  · exact hnext.elim

/-- What a delivery puts it decided on. -/
theorem next_put {put : LocalRow} (hputs : shelf.puts action = some put)
    (hnext : shelf.Next incoming stage action (I.perform action input world).1 after) :
    ∃ existing, stage = .decided existing ∧ GivesWay existing incoming ∧
      after = .adopted existing := by
  obtain ⟨-, hnext⟩ := hnext
  rw [hputs] at hnext
  cases hreads : shelf.reads action with
  | none => simpa only [hreads] using hnext
  | some look => simp only [hreads] at hnext

theorem next_read (hreads : (shelf.reads action).isSome = true)
    (hnext : shelf.Next incoming stage action (I.perform action input world).1 after) :
    stage = .observed := by
  obtain ⟨-, hnext⟩ := hnext
  obtain ⟨look, hlook⟩ := Option.isSome_iff_exists.mp hreads
  cases hputs : shelf.puts action with
  | none =>
      simp only [hputs, hlook] at hnext
      exact hnext.1
  | some put => simp only [hputs, hlook] at hnext

/-- What a delivery has put it has put once and for all. -/
theorem next_adopted
    (hnext : shelf.Next incoming (.adopted existing) action (I.perform action input world).1
      after) : after = .adopted existing := by
  obtain ⟨-, hnext⟩ := hnext
  split at hnext
  · obtain ⟨_, hstage, -⟩ := hnext
    cases hstage
  · cases hnext.1
  · rcases hnext with hafter | ⟨hstage, -⟩
    · exact hafter
    · cases hstage
  · exact hnext.elim

/-- Where nothing came after its read, a delivery spares what it should. -/
theorem Sees.spares (h : shelf.Sees incoming spared thread stage (world, since))
    (hleft : shelf.LeftAlone spared since thread action world)
    (hnext : shelf.Next incoming stage action (I.perform action input world).1 after) :
    shelf.Spares spared action world := by
  refine ⟨fun put hputs _ row hrow hdirty hspared => ?_, fun version hversion hqueued hspared => ?_⟩
  · obtain ⟨existing, rfl, hgives, -⟩ := next_put hputs hnext
    obtain ⟨hlatest, hfresh⟩ := h
    rcases latest_eq existing (since.rows thread) with ⟨hsame, -⟩ | hlast
    · -- The row is as it was read.
      obtain rfl : existing = some row := hsame.symm.trans (hlatest.symm.trans hrow)
      rcases hgives row rfl with hlt | ⟨-, hclean⟩
      · exact (hfresh ⟨row, rfl, hdirty, hlt⟩).1 row rfl hspared
      · cases hdirty.symm.trans hclean
    · -- The row is as it was left since.
      have hrows : latest none (since.rows thread) = some row :=
        (latest_of_mem hlast none).trans (hlatest.symm.trans hrow)
      exact hleft.put (by simp [hputs]) row hrows hdirty hspared
  · obtain ⟨existing, rfl, houtrun⟩ := hnext.1.resolve_left fun hnever =>
      List.ne_nil_of_mem hversion (hnever world)
    exact hleft.retire version hversion hspared ((h houtrun).2 version hqueued hspared)

section Alone

variable {next : Stages I DeliveryStage} {own : Nat} {pool : Pool I α}

/-- The stages of the delivery. Any other thread does as it likes. -/
def besides (next : Stages I DeliveryStage) : Stages I (Option DeliveryStage)
  | none, _, _, after => after = none
  | some stage, action, reply, after =>
      ∃ later, next stage action reply later ∧ after = some later

/-- What the thread `own` knows, as a delivery whose reads are clear and whose row is left
alone. -/
def upkeep (shelf : Shelf I) (incoming : ChangeEvent) (spared : Hlc → Prop) (own : Nat)
    (hnext : ∀ {stage action reply after}, next stage action reply after →
      shelf.Next incoming stage action reply after) :
    Upkeep I (Option DeliveryStage) Since (shelf.Undisturbed incoming spared own) where
  next := besides next
  mark := shelf.mark
  Inv _ := True
  Knows thread stage state :=
    match stage with
    | none => thread ≠ own
    | some stage => thread = own ∧ shelf.Sees incoming spared thread stage state
  own := by
    intro thread stage action input state after _ hknows hclear hbesides
    refine ⟨trivial, ?_⟩
    cases stage with
    | none =>
        obtain rfl : after = none := hbesides
        exact hknows
    | some stage =>
        obtain ⟨later, hstep, rfl⟩ := hbesides
        exact ⟨hknows.1, hknows.2.own (hclear hknows.1).1 (hnext hstep)⟩
  others := by
    intro thread stage action input state after _ _ _ _ other seen hne hother
    cases seen with
    | none => exact hother
    | some seen => exact ⟨hother.1, hother.2.mark (Or.inl hne)⟩

theorem kept_start (hnext : ∀ {stage action reply after}, next stage action reply after →
      shelf.Next incoming stage action reply after)
    {program : Prog I α} (hprogram : pool.threads[own]? = some program)
    (hfollows : program.Follows next (fun _ _ => True) .entering) :
    Pool.Kept (shelf.upkeep incoming spared own hnext) pool Since.start := by
  refine ⟨trivial, fun i other hother => ?_⟩
  by_cases hown : i = own
  · subst hown
    obtain rfl := Option.some.inj (hprogram.symm.trans hother)
    refine ⟨some .entering, ?_, rfl, trivial⟩
    show program.Follows (besides next) (fun _ _ => True) (some .entering)
    exact hfollows.embed some (fun h => ⟨_, h, rfl⟩) fun _ _ h => h
  · refine ⟨none, ?_, hown⟩
    refine (Prog.Follows.of_only (P := (· = none)) ?_
      (Prog.only_of_forall (fun _ => trivial) other) rfl).mono fun _ _ _ => trivial
    rintro stage action reply rfl -
    exact ⟨none, rfl, rfl⟩

/-- A delivery whose reads are clear, and whose row is left alone, spares what it should,
whatever runs beside it. -/
theorem spares_along (shelf : Shelf I)
    (hnext : ∀ {stage action reply after}, next stage action reply after →
      shelf.Next incoming stage action reply after)
    {program : Prog I α} (hprogram : pool.threads[own]? = some program)
    (hfollows : program.Follows next (fun _ _ => True) .entering)
    {D : I.Action → I.Input → I.World → Prop}
    (hD : ∀ {stage action input world after},
      next stage action (I.perform action input world).1 after →
      shelf.Spares spared action world → D action input world)
    {schedule : List (Pool.Turn I)}
    (hwatched : pool.Watched shelf.mark (shelf.Undisturbed incoming spared own) schedule
      Since.start) :
    pool.Along (fun pool turn => turn.1 = own → Pool.Takes D pool turn) schedule := by
  have hkept : Pool.Kept (shelf.upkeep incoming spared own hnext) pool Since.start :=
    kept_start hnext hprogram hfollows
  have hspares := hkept.along
    (D := fun thread action input world => thread = own → D action input world) ?_ hwatched
  · refine hspares.mono fun pool turn htakes hown action rest hthread => ?_
    exact htakes action rest hthread hown
  · intro thread stage action input world since after _ hknows hclear hbesides hown
    cases stage with
    | none => exact absurd hown hknows
    | some stage =>
        obtain ⟨later, hstep, -⟩ := hbesides
        exact hD hstep (hknows.2.spares (hclear hown).2 (hnext hstep))

end Alone

section Race

variable {next : Stages I DeliveryStage} {pool : Pool I α} {seen later : RaceStage}
  {history : Since × Bool}

/-- The write puts one dirty row, and then queues its version. -/
def race (shelf : Shelf I) (next : Stages I DeliveryStage) : Stages I RaceStage
  | .delivering stage, action, reply, after =>
      shelf.queues action = none ∧
        ∃ later, next stage action reply later ∧ after = .delivering later
  | stage, action, _, after =>
      (∀ world, shelf.retires action world = []) ∧
      (∀ put, shelf.puts action = some put → put.dirty = true) ∧
      match stage, shelf.puts action, shelf.queues action with
      | .fresh, some put, none => after = .holding put.version
      | .holding version, none, some queued => queued = version ∧ after = .queued
      | stage, none, none => after = stage
      | _, _, _ => False

/-- What neither puts, queues nor retires leaves a write where it stands. -/
theorem race_passes {reply : I.Reply action} (hseen : seen.Writes)
    (hretires : ∀ world, shelf.retires action world = []) (hputs : shelf.puts action = none)
    (hqueues : shelf.queues action = none) : shelf.race next seen action reply seen := by
  have hdirty : ∀ put, shelf.puts action = some put → put.dirty = true := by simp [hputs]
  cases seen with
  | delivering stage => exact hseen.elim
  | fresh | holding version | queued => exact ⟨hretires, hdirty, by simp [hputs, hqueues]⟩

theorem race_puts {reply : I.Reply action} {put : LocalRow}
    (hretires : ∀ world, shelf.retires action world = [])
    (hputs : shelf.puts action = some put) (hdirty : put.dirty = true)
    (hqueues : shelf.queues action = none) :
    shelf.race next .fresh action reply (.holding put.version) :=
  ⟨hretires, by simp [hputs, hdirty], by simp [hputs, hqueues]⟩

theorem race_queues {reply : I.Reply action} {version : Hlc}
    (hretires : ∀ world, shelf.retires action world = []) (hputs : shelf.puts action = none)
    (hqueues : shelf.queues action = some version) :
    shelf.race next (.holding version) action reply .queued :=
  ⟨hretires, by simp [hputs], by simp [hputs, hqueues]⟩

/-- Beside what came since each read, whether the delivery, as thread 0, has put. -/
def raceMark (shelf : Shelf I) (thread : Nat) (action : I.Action) (input : I.Input)
    (world : I.World) (history : Since × Bool) : Since × Bool :=
  (shelf.mark thread action input world history.1,
    history.2 || (thread == 0 && (shelf.puts action).isSome))

/-- The row is not below the version. -/
def Covers (shelf : Shelf I) (world : I.World) (version : Hlc) : Prop :=
  ∃ row, shelf.row world = some row ∧ version ≤ row.version

theorem Covers.mark {version : Hlc} (h : shelf.Covers world version)
    (hputs : shelf.puts action = none) :
    shelf.Covers (I.perform action input world).2 version := by
  obtain ⟨row, hrow, hle⟩ := h
  obtain ⟨after, hafter, hrises⟩ := shelf.raised hputs input world row hrow
  exact ⟨after, hafter, hle.trans hrises⟩

/-- Until the delivery puts, the row covers what the write has queued, or will queue. -/
def RaceKnows (shelf : Shelf I) (incoming : ChangeEvent) (thread : Nat) :
    RaceStage → I.World × (Since × Bool) → Prop
  | .delivering stage, state =>
      thread = 0 ∧ shelf.Sees incoming (incoming.version < ·) thread stage (state.1, state.2.1) ∧
        (state.2.2 = true → ∃ existing, stage = .adopted existing)
  | .fresh, state => thread = 1 ∧ shelf.queued state.1 = []
  | .holding version, state =>
      thread = 1 ∧ (state.2.2 = false → shelf.Covers state.1 version)
  | .queued, _ => thread = 1

def RaceInv (shelf : Shelf I) (state : I.World × (Since × Bool)) : Prop :=
  state.2.2 = false → ∀ version ∈ shelf.queued state.1, shelf.Covers state.1 version

/-- What is still covered before the delivery puts is covered after. -/
theorem RaceInv.mark (h : shelf.RaceInv (world, history))
    (hputs : history.2 = false → thread = 0 ∧ (shelf.puts action).isSome = true ∨
      shelf.puts action = none)
    (hqueues : ∀ version, shelf.queues action = some version → history.2 = false →
      shelf.Covers world version) :
    shelf.RaceInv (moved shelf.raceMark thread action input (world, history)) := by
  intro hflag version hversion
  obtain ⟨hbefore, hquiet⟩ : history.2 = false ∧ (thread = 0 → shelf.puts action = none) := by
    simpa [raceMark] using hflag
  have hnone : shelf.puts action = none := by
    rcases hputs hbefore with ⟨hzero, -⟩ | hnone
    · exact hquiet hzero
    · exact hnone
  rcases shelf.only_queued hversion with hold | hnow
  · exact (h hbefore version hold).mark hnone
  · exact (hqueues version hnow hbefore).mark hnone

/-- Before the delivery puts, no row that it outruns stands below what the write queued. -/
theorem RaceInv.clear (h : shelf.RaceInv (world, history))
    (hknows : shelf.RaceKnows incoming thread (.delivering stage) (world, history))
    (hnext : shelf.Next incoming stage action (I.perform action input world).1 after) :
    shelf.ReadsClear incoming (incoming.version < ·) action world := by
  intro hreads houtrun
  obtain rfl := next_read hreads hnext
  have hflag : history.2 = false := by
    by_contra hput
    obtain ⟨existing, hstage⟩ := hknows.2.2 (by simpa using hput)
    cases hstage
  obtain ⟨row, hrow, -, hlt⟩ := houtrun
  refine ⟨fun other hother => ?_, fun version hversion => ?_⟩
  · obtain rfl := Option.some.inj (hrow.symm.trans hother)
    exact hlt.not_gt
  · obtain ⟨other, hother, hle⟩ := h hflag version hversion
    obtain rfl := Option.some.inj (hrow.symm.trans hother)
    exact (hle.trans_lt hlt).not_gt

/-- What the delivery knows after its own action. -/
theorem race_delivers (h : shelf.RaceInv (world, history))
    (hknows : shelf.RaceKnows incoming thread (.delivering stage) (world, history))
    (hqueues : shelf.queues action = none)
    (hnext : shelf.Next incoming stage action (I.perform action input world).1 after) :
    shelf.RaceInv (moved shelf.raceMark thread action input (world, history)) ∧
      shelf.RaceKnows incoming thread (.delivering after)
        (moved shelf.raceMark thread action input (world, history)) := by
  obtain ⟨rfl, hsees, hput⟩ := hknows
  refine ⟨h.mark (fun _ => ?_) (fun _ hqueued => by simp [hqueues] at hqueued), rfl,
    hsees.own (h.clear ⟨rfl, hsees, hput⟩ hnext) hnext, fun hflag => ?_⟩
  · cases shelf.puts action with
    | none => exact Or.inr rfl
    | some put => exact Or.inl ⟨rfl, rfl⟩
  · cases hputs : shelf.puts action with
    | some put =>
        obtain ⟨existing, -, -, hafter⟩ := next_put hputs hnext
        exact ⟨existing, hafter⟩
    | none =>
        obtain ⟨existing, rfl⟩ := hput (by simpa [raceMark, hputs] using hflag)
        exact ⟨existing, next_adopted hnext⟩

/-- What the write knows after its own action. -/
theorem race_writes (h : shelf.RaceInv (world, history))
    (hknows : shelf.RaceKnows incoming thread seen (world, history))
    (hseen : seen.Writes)
    (hrace : shelf.race next seen action (I.perform action input world).1 later) :
    shelf.RaceInv (moved shelf.raceMark thread action input (world, history)) ∧
      shelf.RaceKnows incoming thread later
        (moved shelf.raceMark thread action input (world, history)) := by
  cases seen with
  | delivering stage => exact hseen.elim
  | fresh =>
      obtain ⟨rfl, hempty⟩ := hknows
      obtain ⟨-, -, hstep⟩ := hrace
      cases hqueues : shelf.queues action with
      | some queued => cases hputs : shelf.puts action <;> simp [hputs, hqueues] at hstep
      | none =>
          have hstill : shelf.queued (I.perform action input world).2 = [] := by
            refine List.eq_nil_iff_forall_not_mem.mpr fun version hversion => ?_
            rcases shelf.only_queued hversion with hold | hnow
            · simp [hempty] at hold
            · simp [hqueues] at hnow
          refine ⟨fun _ version hversion => by simp [hstill] at hversion, ?_⟩
          cases hputs : shelf.puts action with
          | some put =>
              obtain rfl : later = .holding put.version := by simpa [hputs, hqueues] using hstep
              exact ⟨rfl, fun _ => ⟨put, shelf.put_row hputs input world, le_rfl⟩⟩
          | none =>
              obtain rfl : later = .fresh := by simpa [hputs, hqueues] using hstep
              exact ⟨rfl, hstill⟩
  | holding version =>
      obtain ⟨rfl, hcovers⟩ := hknows
      obtain ⟨-, -, hstep⟩ := hrace
      cases hputs : shelf.puts action with
      | some put => cases hqueues : shelf.queues action <;> simp [hputs, hqueues] at hstep
      | none =>
          cases hqueues : shelf.queues action with
          | some queued =>
              obtain ⟨rfl, rfl⟩ : queued = version ∧ later = .queued := by
                simpa [hputs, hqueues] using hstep
              refine ⟨h.mark (fun _ => Or.inr hputs) fun other hother hflag => ?_, rfl⟩
              obtain rfl := Option.some.inj (hqueues.symm.trans hother)
              exact hcovers hflag
          | none =>
              obtain rfl : later = .holding version := by simpa [hputs, hqueues] using hstep
              refine ⟨h.mark (fun _ => Or.inr hputs) (by simp [hqueues]), rfl, fun hflag => ?_⟩
              exact (hcovers (by simpa [raceMark] using hflag)).mark hputs
  | queued =>
      obtain rfl := hknows
      obtain ⟨-, -, hstep⟩ := hrace
      cases hputs : shelf.puts action with
      | some put => cases hqueues : shelf.queues action <;> simp [hputs, hqueues] at hstep
      | none =>
          cases hqueues : shelf.queues action with
          | some queued => simp [hputs, hqueues] at hstep
          | none =>
              obtain rfl : later = .queued := by simpa [hputs, hqueues] using hstep
              exact ⟨h.mark (fun _ => Or.inr hputs) (by simp [hqueues]), rfl⟩

/-- What the other thread knows. -/
theorem race_bystands {mover : RaceStage}
    (hmover : shelf.RaceKnows incoming thread mover (world, history))
    (hrace : shelf.race next mover action (I.perform action input world).1 later)
    (hne : other ≠ thread)
    (h : shelf.RaceKnows incoming other seen (world, history)) :
    shelf.RaceKnows incoming other seen
      (moved shelf.raceMark thread action input (world, history)) := by
  have hdelivers : other = 1 → ∃ stage, mover = .delivering stage := by
    rintro rfl
    cases mover with
    | delivering stage => exact ⟨stage, rfl⟩
    | fresh => exact absurd hmover.1.symm hne
    | holding version => exact absurd hmover.1.symm hne
    | queued => exact absurd hmover.symm hne
  cases seen with
  | delivering stage =>
      obtain ⟨rfl, hsees, hput⟩ := h
      refine ⟨rfl, hsees.mark (Or.inl hne), fun hflag => hput ?_⟩
      simpa [raceMark, hne.symm] using hflag
  | fresh =>
      obtain ⟨rfl, hempty⟩ := h
      obtain ⟨stage, rfl⟩ := hdelivers rfl
      refine ⟨rfl, List.eq_nil_iff_forall_not_mem.mpr fun version hversion => ?_⟩
      rcases shelf.only_queued hversion with hold | hnow
      · simp [hempty] at hold
      · simp [hrace.1] at hnow
  | holding version =>
      obtain ⟨rfl, hcovers⟩ := h
      obtain ⟨stage, rfl⟩ := hdelivers rfl
      obtain ⟨rfl, -⟩ := hmover
      refine ⟨rfl, fun hflag => ?_⟩
      obtain ⟨hbefore, hputs⟩ : history.2 = false ∧ shelf.puts action = none := by
        simpa [raceMark] using hflag
      exact (hcovers hbefore).mark hputs
  | queued => exact h

/-- What both threads know as long as nothing comes between the read of the delivery and
what it does. -/
def raceUpkeep (shelf : Shelf I) (incoming : ChangeEvent)
    (hnext : ∀ {stage action reply after}, next stage action reply after →
      shelf.Next incoming stage action reply after) :
    Upkeep I RaceStage (Since × Bool) fun history thread action _ world => thread = 0 →
      shelf.LeftAlone (incoming.version < ·) history.1 thread action world where
  next := shelf.race next
  mark := shelf.raceMark
  Inv := shelf.RaceInv
  Knows := shelf.RaceKnows incoming
  own := by
    intro thread stage action input state after hinv hknows _ hrace
    cases stage with
    | delivering stage =>
        obtain ⟨hqueues, later, hstep, rfl⟩ := hrace
        exact race_delivers hinv hknows hqueues (hnext hstep)
    | fresh | holding _ | queued => exact race_writes hinv hknows trivial hrace
  others := fun _ hmover _ hrace _ _ hne hother => race_bystands hmover hrace hne hother

/-- A delivery races one write to its row. Whatever the schedule, the newer write is spared
if it did not come between the read of the delivery and its put, or its retirements. -/
theorem race_spares (shelf : Shelf I)
    (hnext : ∀ {stage action reply after}, next stage action reply after →
      shelf.Next incoming stage action reply after)
    {delivery write : Prog I α} (hempty : shelf.queued world = [])
    (hdelivery : delivery.Follows (shelf.race next) (fun _ _ => True) (.delivering .entering))
    (hwrite : write.Follows (shelf.race next) (fun _ _ => True) .fresh)
    {schedule : List (Pool.Turn I)}
    (hwatched : Pool.Watched shelf.mark (fun since thread action _ world => thread = 0 →
      shelf.LeftAlone (incoming.version < ·) since thread action world)
      { world := world, threads := [delivery, write] } schedule Since.start) :
    Pool.Heeds (fun action _ world => shelf.Spares (incoming.version < ·) action world)
      { world := world, threads := [delivery, write] } schedule := by
  have hkept : Pool.Kept (shelf.raceUpkeep incoming hnext)
      { world := world, threads := [delivery, write] } (Since.start, false) := by
    refine ⟨fun _ version hversion => by simp [hempty] at hversion, fun i program hprogram => ?_⟩
    match i with
    | 0 =>
        obtain rfl := Option.some.inj hprogram
        exact ⟨_, hdelivery, rfl, trivial, nofun⟩
    | 1 =>
        obtain rfl := Option.some.inj hprogram
        exact ⟨_, hwrite, rfl, hempty⟩
    | i + 2 => cases hprogram
  refine hkept.heeds ?_ ((Pool.watched_part Prod.fst (fun _ _ _ _ _ => rfl) _ _ schedule
    (Since.start, false)).mpr hwatched)
  intro thread stage action input world history after _ hknows hleft hrace
  cases stage with
  | delivering stage =>
      obtain ⟨-, later, hstep, -⟩ := hrace
      exact hknows.2.1.spares (hleft hknows.1) (hnext hstep)
  | fresh | holding _ | queued =>
      refine ⟨fun put hputs hclean => ?_, fun version hversion => ?_⟩
      · cases (hrace.2.1 put hputs).symm.trans hclean
      · simp [hrace.1 world] at hversion

end Race

end Shelf

namespace Rows

variable {I : Interface} {ρ : Type} {key : String} {queued : I.World → List Hlc}
  {queues : I.Action → Option Hlc} {retires : I.Action → I.World → List Hlc}

/-- The row as a shelf, beside a record of the versions queued for it. -/
def shelf (rows : Rows I ρ) (key : String) (queued : I.World → List Hlc)
    (queues : I.Action → Option Hlc) (retires : I.Action → I.World → List Hlc)
    (honly : ∀ {action input world version},
      version ∈ queued (I.perform action input world).2 →
        version ∈ queued world ∨ queues action = some version) : Shelf I where
  row world := (rows.row world key).map rows.localRow
  queued := queued
  puts action := ((rows.does action).putAt key).map rows.localRow
  reads action := ((rows.does action).readAt key).map fun look reply =>
    (look reply).map rows.localRow
  queues := queues
  retires := retires
  put_row := by
    intro action put hputs input world
    obtain ⟨row, hrow, rfl⟩ := Option.map_eq_some_iff.mp hputs
    rw [rows.put_row (Touch.putAt_eq_some.mp hrow), Function.update_self]
    rfl
  raised := by
    intro action hputs input world current hcurrent
    obtain ⟨row, hrow, rfl⟩ := Option.map_eq_some_iff.mp hcurrent
    obtain ⟨later, hlater, hle⟩ :=
      rows.raised_at (Option.map_eq_none_iff.mp hputs) input world hrow
    exact ⟨rows.localRow later, by rw [hlater]; rfl, hle⟩
  looked := by
    intro action look hreads input world
    obtain ⟨found, hfound, rfl⟩ := Option.map_eq_some_iff.mp hreads
    obtain ⟨hlook, hsame⟩ := rows.looked (Touch.readAt_eq_some.mp hfound) input world
    exact ⟨congrArg (Option.map rows.localRow) hlook, hsame⟩
  only_queued := honly

theorem shelf_puts {rows : Rows I ρ} {honly} {action : I.Action} {put : ρ}
    (h : rows.does action = .put key put) :
    (rows.shelf key queued queues retires honly).puts action = some (rows.localRow put) :=
  Option.map_eq_some_iff.mpr ⟨put, Touch.putAt_eq_some.mpr h, rfl⟩

/-- What is spared is not the dirty row that a clean one is put over. -/
theorem not_spared {rows : Rows I ρ} {honly} {spared : Hlc → Prop} {action : I.Action}
    {world : I.World} {put current : ρ}
    (h : (rows.shelf key queued queues retires honly).Spares spared action world)
    (hputs : rows.does action = .put key put) (hclean : (rows.localRow put).dirty = false)
    (hrow : rows.row world key = some current) (hdirty : (rows.localRow current).dirty = true) :
    ¬ spared (rows.localRow current).version := by
  refine h.put _ (shelf_puts hputs) hclean _ ?_ hdirty
  exact Option.map_eq_some_iff.mpr ⟨current, hrow, rfl⟩

/-- A delivery of the row goes through its stages. -/
theorem Delivers.shelf {rows : Rows I ρ} {incoming : ChangeEvent} {honly}
    {stage after : DeliveryStage} {action : I.Action} {reply : I.Reply action}
    (hretires : rows.does action ≠ .retire → ∀ world, retires action world = [])
    (h : rows.Delivers key incoming stage action reply after) :
    (rows.shelf key queued queues retires honly).Next incoming stage action reply after := by
  unfold Delivers at h
  simp only [Shelf.Next, Rows.shelf]
  split at h
  · rename_i hdoes
    obtain ⟨rfl, -, rfl⟩ := h
    exact ⟨Or.inl (hretires (by simp [hdoes])), by simp [hdoes]⟩
  · rename_i hdoes
    obtain ⟨rfl, rfl, rfl⟩ := h
    exact ⟨Or.inl (hretires (by simp [hdoes])), by simp [hdoes]⟩
  · rename_i hdoes
    obtain ⟨rfl, -, -, existing, rfl, hgives, rfl⟩ := h
    exact ⟨Or.inl (hretires (by simp [hdoes])), by simpa [hdoes] using hgives⟩
  · rename_i hdoes
    exact ⟨Or.inr h.2, by simp [hdoes, h.1]⟩
  · rename_i hdoes
    exact ⟨Or.inl (hretires (by simp [hdoes])), by simp [hdoes, h]⟩
  · exact h.elim
  · exact h.elim

end Rows

namespace Js

/-- The versions of the row's entries that an action retires. -/
def retiredFrom (table id : String) : Action → World → List Hlc
  | .retire seq, world =>
      (world.store.queue.filter fun entry =>
        entry.seq = seq ∧ entry.sameRow table id = true).map (·.baseVersion)
  | _, _ => []

/-- A row of the browser store, beside a record of the versions queued for it. -/
def rowShelf (table id : String) (queued : World → List Hlc) (queues : Action → Option Hlc)
    (honly : ∀ {action : Action} {input : Input} {world : World} {version : Hlc},
      version ∈ queued (perform action input world).2 →
        version ∈ queued world ∨ queues action = some version) : Shelf session :=
  rows.shelf (rowKey table id) queued queues (retiredFrom table id) honly

/-- The write an action queues. -/
def Action.enqueues : Action → Option QueuedWrite
  | .enqueue write => some write
  | _ => none

theorem perform_queued (action : Action) (input : Input) (world : World) :
    (perform action input world).2.queued = world.queued ++ action.enqueues.toList := by
  cases action with
  | enqueue write => rfl
  | dispatch _ | lock | renew | afterRenew _ _ | readHandle | stopBegin | releaseLease
  | settled =>
      rw [(Action.ofSession.sameClient (by trivial) input world).queued]
      exact (List.append_nil _).symm
  | _ => exact (List.append_nil _).symm

/-- A row, beside the writes that a run has queued which found `started` of them. -/
def runShelf (table id : String) (started : Nat) : Shelf session :=
  rowShelf table id (fun world => (world.queued.drop started).map (·.baseVersion))
    (fun action => action.enqueues.map (·.baseVersion)) (by
      intro action input world version h
      rw [perform_queued, List.drop_append, List.map_append, List.mem_append] at h
      refine h.imp_right fun hnow => ?_
      obtain ⟨write, hwrite, rfl⟩ := List.mem_map.mp hnow
      rw [Option.mem_toList.mp (List.mem_of_mem_drop hwrite)]
      rfl)

variable {table id : String} {queued : World → List Hlc} {queues : Action → Option Hlc} {honly}
  {spared : Hlc → Prop} {action : Action} {world : World}

theorem rowShelf_puts {table' id' : String} {stored : StoredRow}
    (h : action.puts = some (table', id', stored)) (hkey : rowKey table' id' = rowKey table id) :
    (rowShelf table id queued queues honly).puts action = some stored.localRow :=
  Rows.shelf_puts (touches_put.mpr ⟨_, _, h, hkey⟩)

/-- No clean row is put over a write to spare. -/
theorem not_rowHolds (h : (rowShelf table id queued queues honly).Spares spared action world)
    {stored : StoredRow} (hputs : action.puts = some (table, id, stored))
    (hclean : stored.rowMeta.dirty = false) {write : QueuedWrite} (htable : write.table = table)
    (hid : write.id = id) (hspared : spared write.baseVersion) : ¬ RowHolds write world := by
  subst htable hid
  rintro ⟨current, hcurrent, -, hbase, hdirty⟩
  rw [← hbase] at hspared
  exact Rows.not_spared h (touches_put.mpr ⟨_, _, hputs, rfl⟩) hclean hcurrent hdirty hspared

/-- No entry of a write to spare is retired. -/
theorem seq_ne {seq : Nat}
    (h : (rowShelf table id queued queues honly).Spares spared (.retire seq) world)
    {entry : QueueEntry} (hentry : entry ∈ world.store.queue)
    (hrow : entry.sameRow table id = true) (hqueued : entry.baseVersion ∈ queued world)
    (hspared : spared entry.baseVersion) : entry.seq ≠ seq := by
  rintro rfl
  refine h.retire entry.baseVersion ?_ hqueued hspared
  exact List.mem_map_of_mem (List.mem_filter.mpr ⟨hentry, by simp [hrow]⟩)

/-- A delivery of the row goes through its stages. -/
theorem shelf_next {incoming : ChangeEvent} {queued : World → List Hlc}
    {queues : Action → Option Hlc} (honly) {stage after : DeliveryStage} {action : Action}
    {reply : action.Reply} (h : DeliveryStage.Next incoming stage action reply after) :
    (rowShelf incoming.table incoming.id queued queues honly).Next incoming stage action reply
      after := by
  refine (DeliveryStage.next_delivers h).shelf fun hdoes world => ?_
  cases action <;> first | rfl | exact absurd rfl hdoes

end Js

namespace Dart

/-- The versions of the row's entries that an action retires. -/
def retiredFrom (table id : String) : Action → World → List Hlc
  | .retire retired, world =>
      (world.storage.queue.filter fun write =>
        write.key = retired.key ∧ write.sameRow table id = true).map (·.baseVersion)
  | _, _ => []

/-- A row of the Dart storage, beside a record of the versions queued for it. -/
def rowShelf (table id : String) (queued : World → List Hlc) (queues : Action → Option Hlc)
    (honly : ∀ {action : Action} {input : Input} {world : World} {version : Hlc},
      version ∈ queued (perform action input world).2 →
        version ∈ queued world ∨ queues action = some version) : Shelf device :=
  rows.shelf (rowKey table id) queued queues (retiredFrom table id) honly

/-- The write an action queues. -/
def Action.enqueues : Action → Option QueuedWrite
  | .enqueue write => some write
  | _ => none

theorem perform_queued (action : Action) (input : Input) (world : World) :
    (perform action input world).2.queued = world.queued ++ action.enqueues.toList := by
  cases action with
  | enqueue write => rfl
  | _ => exact (List.append_nil _).symm

/-- A row, beside the writes that a run has queued which found `started` of them. -/
def runShelf (table id : String) (started : Nat) : Shelf device :=
  rowShelf table id (fun world => (world.queued.drop started).map (·.baseVersion))
    (fun action => action.enqueues.map (·.baseVersion)) (by
      intro action input world version h
      rw [perform_queued, List.drop_append, List.map_append, List.mem_append] at h
      refine h.imp_right fun hnow => ?_
      obtain ⟨write, hwrite, rfl⟩ := List.mem_map.mp hnow
      rw [Option.mem_toList.mp (List.mem_of_mem_drop hwrite)]
      rfl)

variable {table id : String} {queued : World → List Hlc} {queues : Action → Option Hlc} {honly}
  {spared : Hlc → Prop} {action : Action} {world : World}

theorem rowShelf_puts {table' id' : String} {stored : StoredRow}
    (h : action.puts = some (table', id', stored)) (hkey : rowKey table' id' = rowKey table id) :
    (rowShelf table id queued queues honly).puts action = some stored.localRow :=
  Rows.shelf_puts (touches_put.mpr ⟨_, _, h, hkey⟩)

/-- No clean row is put over a write to spare. -/
theorem not_rowHolds (h : (rowShelf table id queued queues honly).Spares spared action world)
    {stored : StoredRow} (hputs : action.puts = some (table, id, stored))
    (hclean : stored.dirty = false) {write : QueuedWrite} (htable : write.table = table)
    (hid : write.id = id) (hspared : spared write.baseVersion) : ¬ RowHolds write world := by
  subst htable hid
  rintro ⟨current, hcurrent, -, hbase, hdirty⟩
  rw [← hbase] at hspared
  exact Rows.not_spared h (touches_put.mpr ⟨_, _, hputs, rfl⟩) hclean hcurrent hdirty hspared

/-- No entry of a write to spare is retired. -/
theorem key_ne {retired write : QueuedWrite}
    (h : (rowShelf table id queued queues honly).Spares spared (.retire retired) world)
    (hentry : write ∈ world.storage.queue) (hrow : write.sameRow table id = true)
    (hqueued : write.baseVersion ∈ queued world) (hspared : spared write.baseVersion) :
    write.key ≠ retired.key := by
  intro hkey
  refine h.retire write.baseVersion ?_ hqueued hspared
  exact List.mem_map_of_mem (List.mem_filter.mpr ⟨hentry, by simp [hrow, hkey]⟩)

/-- A delivery of the row goes through its stages. -/
theorem shelf_next {incoming : ChangeEvent} {queued : World → List Hlc}
    {queues : Action → Option Hlc} (honly) {stage after : DeliveryStage} {action : Action}
    {reply : action.Reply} (h : DeliveryStage.Next incoming stage action reply after) :
    (rowShelf incoming.table incoming.id queued queues honly).Next incoming stage action reply
      after := by
  refine (DeliveryStage.next_delivers h).shelf fun hdoes world => ?_
  cases action <;> first | rfl | exact absurd rfl hdoes

end Dart

end ZedSync
