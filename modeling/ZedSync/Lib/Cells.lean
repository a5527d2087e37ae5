import Mathlib.Order.Lattice
import ZedSync.Lib.Windows

/-!
A versioned cell that threads overwrite. A put takes no account of what it lands
on, so a thread that puts what it learned some awaits ago may lower the cell, or
replace the payload of the very version it puts. A thread that read the cell and
puts nothing below what it read lowers it only by what it missed in between. This
module names no program.
-/

namespace Async

/-- A cell in the worlds of an interface. Only a put lowers its version, and no
action empties it. An action that reads it changes nothing. -/
structure Cell (I : Interface) (ρ ν π : Type) [LinearOrder ν] where
  stored : I.World → Option ρ
  version : ρ → ν
  payload : ρ → π
  puts : I.Action → Option ρ
  reads : (action : I.Action) → Option (I.Reply action → Option ρ)
  put_stored : ∀ {action row}, puts action = some row →
    ∀ input world, stored (I.perform action input world).2 = some row
  raised : ∀ {action}, puts action = none → ∀ input world current,
    stored world = some current →
      ∃ later, stored (I.perform action input world).2 = some later ∧
        version current ≤ version later
  looked : ∀ {action look}, reads action = some look → ∀ input world,
    look (I.perform action input world).1 = stored world ∧
      stored (I.perform action input world).2 = stored world

namespace Cell

variable {I : Interface} {ρ ν π α : Type} [LinearOrder ν] (cell : Cell I ρ ν π)

/-- The action moves the cell by a put or not at all. -/
def MovesByPut (action : I.Action) : Prop :=
  cell.puts action = none →
    ∀ input world, cell.stored (I.perform action input world).2 = cell.stored world

/-- What a turn owes the cell: it is not lowered or emptied, and a turn of the
thread `own` leaves the payload of a version that stays. -/
structure Respects (own : Nat) (pool : Pool I α) (turn : Pool.Turn I) : Prop where
  rises : ∀ current, cell.stored pool.world = some current →
    ∃ later, cell.stored (pool.step turn).world = some later ∧
      cell.version current ≤ cell.version later
  keeps : turn.1 = own → ∀ current, cell.stored pool.world = some current →
    ∀ later, cell.stored (pool.step turn).world = some later →
      cell.version later = cell.version current → cell.payload later = cell.payload current

/-- What an action puts is not behind what it finds: not at an older version, and
not, by the thread `own`, at the same version with another payload. -/
def Ahead (own thread : Nat) (action : I.Action) (_ : I.Input) (world : I.World) : Prop :=
  ∀ put, cell.puts action = some put → ∀ current, cell.stored world = some current →
    cell.version current ≤ cell.version put ∧
      (thread = own → cell.version put = cell.version current →
        cell.payload put = cell.payload current)

/-- What the turn puts is not behind what it finds. -/
def PutsAhead (own : Nat) (pool : Pool I α) (turn : Pool.Turn I) : Prop :=
  Pool.Takes (cell.Ahead own turn.1) pool turn

variable {cell} {own : Nat} {pool : Pool I α} {turn : Pool.Turn I} {action : I.Action}
  {next : I.Reply action → Prog I α}

/-- A turn that leaves the cell as it finds it owes nothing. -/
theorem respects_of_same
    (hsame : cell.stored (pool.step turn).world = cell.stored pool.world) :
    cell.Respects own pool turn := by
  refine ⟨fun current hcurrent => ?_, fun _ current hcurrent later hlater _ => ?_⟩
  · rw [hsame]
    exact ⟨current, hcurrent, le_rfl⟩
  · rw [hsame, hcurrent] at hlater
    rw [Option.some.inj hlater]

theorem step_put {put : ρ} (hthread : pool.threads[turn.1]? = some (.call action next))
    (hputs : cell.puts action = some put) :
    cell.stored (pool.step turn).world = some put := by
  rw [Pool.step_call hthread]
  exact cell.put_stored hputs turn.2 pool.world

theorem respects_of_quiet (hthread : pool.threads[turn.1]? = some (.call action next))
    (hputs : cell.puts action = none) (hmoves : turn.1 = own → cell.MovesByPut action) :
    cell.Respects own pool turn := by
  have hafter : (pool.step turn).world = (I.perform action turn.2 pool.world).2 := by
    rw [Pool.step_call hthread]
  by_cases hown : turn.1 = own
  · apply respects_of_same
    rw [hafter]
    exact hmoves hown hputs turn.2 pool.world
  · refine ⟨fun current hcurrent => ?_, fun hturn => absurd hturn hown⟩
    rw [hafter]
    exact cell.raised hputs turn.2 pool.world current hcurrent

/-- An action that puts nothing behind does not lower the cell. -/
theorem Ahead.rises {thread : Nat} {input : I.Input} {world : I.World}
    (h : cell.Ahead own thread action input world) (current : ρ)
    (hcurrent : cell.stored world = some current) :
    ∃ later, cell.stored (I.perform action input world).2 = some later ∧
      cell.version current ≤ cell.version later := by
  cases hputs : cell.puts action with
  | none => exact cell.raised hputs input world current hcurrent
  | some put => exact ⟨put, cell.put_stored hputs input world, (h put hputs current hcurrent).1⟩

theorem respects_of_put {put : ρ}
    (hthread : pool.threads[turn.1]? = some (.call action next))
    (hputs : cell.puts action = some put) (hahead : cell.PutsAhead own pool turn) :
    cell.Respects own pool turn := by
  have hafter := step_put hthread hputs
  have hfound := hahead action next hthread put hputs
  refine ⟨fun current hcurrent => ⟨put, hafter, (hfound current hcurrent).1⟩,
    fun hown current hcurrent later hlater => ?_⟩
  obtain rfl := Option.some.inj (hafter.symm.trans hlater)
  exact (hfound current hcurrent).2 hown

/-- A turn respects the cell exactly when it puts nothing behind. -/
theorem respects_iff
    (hown : pool.Each fun thread action => thread = own → cell.MovesByPut action)
    (turn : Pool.Turn I) : cell.Respects own pool turn ↔ cell.PutsAhead own pool turn := by
  constructor
  · intro hrespects action next hthread put hputs current hcurrent
    have hafter := step_put hthread hputs
    obtain ⟨later, hlater, hle⟩ := hrespects.rises current hcurrent
    obtain rfl := Option.some.inj (hafter.symm.trans hlater)
    exact ⟨hle, fun hturn => hrespects.keeps hturn current hcurrent put hafter⟩
  · intro hahead
    rcases Pool.step_cases pool turn with hidle | ⟨action, next, hthread, -⟩
    · apply respects_of_same
      rw [hidle]
    · cases hputs : cell.puts action with
      | none => exact respects_of_quiet hthread hputs (hown turn.1 _ hthread).1
      | some put => exact respects_of_put hthread hputs hahead

/-- A run respects the cell exactly when no turn of it puts behind, as long as
the thread `own` moves the cell by its puts only. -/
theorem along_respects_iff
    (hown : pool.Each fun thread action => thread = own → cell.MovesByPut action)
    (schedule : List (Pool.Turn I)) :
    pool.Along (cell.Respects own) schedule ↔ pool.Along (cell.PutsAhead own) schedule :=
  Run.along_iff_of_inv (fun _ turn h => h.step turn) (fun _ turn h => respects_iff h turn)
    schedule hown

/-- Of the threads only the first one owns the cell. -/
theorem each_first {first : Prog I α} (hfirst : first.Only cell.MovesByPut)
    (others : List (Prog I α)) (world : I.World) :
    Pool.Each (fun thread action => thread = 0 → cell.MovesByPut action)
      { world := world, threads := first :: others } := by
  intro thread program hprogram
  cases thread with
  | zero =>
      obtain rfl := Option.some.inj hprogram
      exact hfirst.mono fun _ hmoves _ => hmoves
  | succ thread => exact Prog.only_of_forall (fun _ hzero => absurd hzero (by simp)) program

section Bounds

variable {world : I.World} {missed : Missed (Option ν)} {thread : Nat} {input : I.Input}

def storedVersion (cell : Cell I ρ ν π) (world : I.World) : Option ν :=
  (cell.stored world).map cell.version

/-- The versions the cell takes after a thread read it. -/
def window (cell : Cell I ρ ν π) : Window I (Option ν) :=
  cellWindow (fun action => (cell.reads action).isSome) cell.storedVersion

/-- The cell is not below what any thread has missed. -/
def Bounds (cell : Cell I ρ ν π) (world : I.World) (missed : Missed (Option ν)) : Prop :=
  ∀ thread version, some version ∈ missed thread →
    ∃ current, cell.stored world = some current ∧ version ≤ cell.version current

/-- An action that does not lower the cell keeps it so. -/
theorem Bounds.mark (h : cell.Bounds world missed)
    (hrises : ∀ current, cell.stored world = some current →
      ∃ later, cell.stored (I.perform action input world).2 = some later ∧
        cell.version current ≤ cell.version later) :
    cell.Bounds (I.perform action input world).2
      (cell.window.mark thread action input world missed) := by
  intro other version hmissed
  rcases Window.of_mem_mark hmissed with hold | hbrings
  · obtain ⟨current, hcurrent, hle⟩ := h other version hold
    obtain ⟨later, hlater, hrise⟩ := hrises current hcurrent
    exact ⟨later, hlater, hle.trans hrise⟩
  · unfold window cellWindow at hbrings
    dsimp only at hbrings
    split at hbrings
    · cases hbrings
    · obtain ⟨later, hlater, rfl⟩ :=
        Option.map_eq_some_iff.mp (List.mem_singleton.mp hbrings).symm
      exact ⟨later, hlater, le_rfl⟩

end Bounds

end Cell

/-- How far a thread has come that reads a cell once and then puts once. -/
inductive Reader (ν : Type) where
  | fresh
  | holding (read : Option ν)
  | done

namespace Reader

variable {I : Interface} {ρ ν π α : Type} [LinearOrder ν] {cell : Cell I ρ ν π}

/-- What such a thread puts is not below what it read. -/
def Next (cell : Cell I ρ ν π) (version : ν) : Stages I (Reader ν) :=
  fun stage action reply after =>
    match cell.puts action, cell.reads action with
    | some put, _ =>
        ∃ read, stage = .holding read ∧ (∀ found, read = some found → found ≤ version) ∧
          cell.version put = version ∧ after = .done
    | none, some look => stage = .fresh ∧ after = .holding ((look reply).map cell.version)
    | none, none => after = stage

/-- A thread that holds what it read still has the cell in sight: it is as it was read, or
as it was left last since. -/
def Sees (cell : Cell I ρ ν π) (thread : Nat) (stage : Reader ν) (world : I.World)
    (missed : Missed (Option ν)) : Prop :=
  ∀ read, stage = .holding read → cell.storedVersion world = latest read (missed thread)

variable {thread mover : Nat} {stage after : Reader ν} {world : I.World} {version : ν}
  {missed : Missed (Option ν)} {action : I.Action} {input : I.Input}

theorem Sees.other (h : Sees cell thread stage world missed) (hne : thread ≠ mover) :
    Sees cell thread stage (I.perform action input world).2
      (cell.window.mark mover action input world missed) :=
  fun read hstage => latest_mark _ cell.storedVersion (h read hstage) (Or.inl hne)

theorem Sees.own (h : Sees cell thread stage world missed)
    (hnext : Next cell version stage action (I.perform action input world).1 after) :
    Sees cell thread after (I.perform action input world).2
      (cell.window.mark thread action input world missed) := by
  intro read hafter
  unfold Next at hnext
  split at hnext
  · obtain ⟨_, -, -, -, rfl⟩ := hnext
    cases hafter
  · rename_i look _ hreads
    obtain ⟨-, rfl⟩ := hnext
    obtain ⟨hlook, hsame⟩ := cell.looked hreads input world
    have hopens : cell.window.opens action = true := by simp [Cell.window, cellWindow, hreads]
    obtain rfl := Reader.holding.inj hafter
    rw [Window.mark_opens hopens, Cell.storedVersion, hsame, hlook]
    rfl
  · rename_i _ hreads
    subst hnext
    exact latest_mark _ cell.storedVersion (h read hafter) (Or.inr (by simp [hreads]))

/-- What a thread puts is not below the cell exactly when it is not below anything the
thread missed since it read. -/
theorem ahead_iff_missed (hbounds : cell.Bounds world missed)
    (hsees : Sees cell thread stage world missed) {put : ρ} (hputs : cell.puts action = some put)
    (hnext : Next cell version stage action (I.perform action input world).1 after) :
    (∀ current, cell.stored world = some current → cell.version current ≤ cell.version put) ↔
      ∀ taken, some taken ∈ missed thread → taken ≤ version := by
  simp only [Next, hputs] at hnext
  obtain ⟨read, hstage, hread, rfl, -⟩ := hnext
  constructor
  · intro hall taken htaken
    obtain ⟨current, hcurrent, hle⟩ := hbounds thread taken htaken
    exact hle.trans (hall current hcurrent)
  · intro hall current hcurrent
    have hlatest := hsees read hstage
    rw [Cell.storedVersion, hcurrent, Option.map_some] at hlatest
    rcases latest_eq read (missed thread) with ⟨hsame, -⟩ | hlast
    · exact hread _ (hlatest.trans hsame).symm
    · exact hall _ (hlatest ▸ hlast)

end Reader

end Async
