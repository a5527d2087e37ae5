import Mathlib.Order.Lattice
import ZedSync.Lib.Windows

/-!
Threads that take a stamp from a clock and put it into a register some awaits later,
beside threads that feed the register and have the clock fold in what they bring. A stamp
is above all the clock has met, so only a version that came past the clock, or after the
stamp was taken, can stand above a stamp that is put. Versions come past the clock by
other threads' puts, by actions that are no puts, by the feeds the clock refused, and by a
restart of the clock. This module names no program.
-/

namespace Async

/-- A versioned register beside a clock. A put is local (a stamp of the clock) or not, and
`adopted` are the versions of the puts that are not. The clock folds in a version it
observes if it admits it; only a restart sets it back. -/
structure Register (I : Interface) (ν : Type) [LinearOrder ν] where
  stored : I.World → Option ν
  adopted : I.World → List ν
  clock : I.World → ν
  puts : I.Action → Option (ν × Bool)
  stamps : (action : I.Action) → Option (I.Reply action → ν)
  observes : I.Action → Option ν
  admits : ν → I.Input → Bool
  restarts : I.Action → Bool
  put_stored : ∀ {action version isLocal}, puts action = some (version, isLocal) →
    ∀ input world, stored (I.perform action input world).2 = some version
  put_adopted : ∀ {action input world version},
    version ∈ adopted (I.perform action input world).2 →
      version ∈ adopted world ∨ puts action = some (version, false)
  stamped : ∀ {action look}, stamps action = some look → puts action = none ∧
    ∀ input world, stored (I.perform action input world).2 = stored world ∧
      clock world < look (I.perform action input world).1 ∧
      look (I.perform action input world).1 ≤ clock (I.perform action input world).2
  folded : ∀ {action version}, observes action = some version → ∀ input,
    admits version input = true → ∀ world, version ≤ clock (I.perform action input world).2
  forward : ∀ {action}, restarts action = false → ∀ input world,
    clock world ≤ clock (I.perform action input world).2

/-- Where the versions of a register come from: those that came past the clock, and those
that came since each thread took its stamp. A thread is behind when the clock is not the
one it stamped from, or refused what the thread brings. -/
structure Provenance (ν : Type) where
  outside : List ν
  behind : Nat → Bool
  since : Missed ν

/-- What a thread is about: it may come to hold a stamp, or it feeds the register with
what the clock has observed. -/
inductive Stamper (ν : Type) where
  | idle
  | holding (stamp : ν)
  | feeding (observed : Option ν)

/-- The thread feeds nothing. -/
def Stamper.Writes {ν : Type} : Stamper ν → Prop
  | .feeding _ => False
  | _ => True

namespace Register

variable {I : Interface} {ν α : Type} [LinearOrder ν] (reg : Register I ν) (feeds : Nat → Bool)

/-- The versions the register holds or has adopted. -/
def versions (world : I.World) : List ν := (reg.stored world).toList ++ reg.adopted world

/-- The version an action brings into the register, by a put or otherwise. -/
def enters (action : I.Action) (input : I.Input) (world : I.World) : Option ν :=
  match reg.puts action with
  | some put => some put.1
  | none =>
      if reg.stored (I.perform action input world).2 = reg.stored world then none
      else reg.stored (I.perform action input world).2

/-- What enters the register after a thread took its stamp. -/
def window : Window I ν where
  opens action := (reg.stamps action).isSome
  brings action input world := (reg.enters action input world).toList

/-- Whether what the action brings comes past the clock. A stamp and a feed do when their
thread is behind, anything else always does. -/
def past (history : Provenance ν) (thread : Nat) (action : I.Action) : Bool :=
  match reg.puts action with
  | some (_, isLocal) => history.behind thread || !(isLocal || feeds thread)
  | none => true

/-- Which threads are behind after an action. -/
def falls (thread : Nat) (action : I.Action) (input : I.Input) (behind : Nat → Bool) :
    Nat → Bool :=
  if reg.restarts action then fun _ => true
  else
    match reg.stamps action, reg.observes action with
    | some _, _ => Function.update behind thread false
    | none, some version =>
        if feeds thread then Function.update behind thread (!reg.admits version input)
        else behind
    | none, none => behind

/-- A restart leaves every version past the clock. -/
def mark (thread : Nat) (action : I.Action) (input : I.Input) (world : I.World)
    (history : Provenance ν) : Provenance ν where
  outside :=
    history.outside ++
      (if reg.restarts action then reg.versions (I.perform action input world).2
      else if reg.past feeds history thread action then
        (reg.enters action input world).toList
      else [])
  behind := reg.falls feeds thread action input history.behind
  since := reg.window.mark thread action input world history.since

/-- What is there before a run came past the clock. -/
def start (world : I.World) : Provenance ν where
  outside := reg.versions world
  behind _ := false
  since _ := []

/-- The versions of the register that a thread's stamp does not account for. -/
def Foreign (history : Provenance ν) (thread : Nat) (version : ν) : Prop :=
  version ∈ history.outside ∨ version ∈ history.since thread

/-- A stamp that is put is above what the register holds and not below what it adopted. -/
def Outranks (action : I.Action) (_ : I.Input) (world : I.World) : Prop :=
  ∀ stamp, reg.puts action = some (stamp, true) →
    (∀ version, reg.stored world = some version → version < stamp) ∧
      ∀ version ∈ reg.adopted world, version ≤ stamp

/-- So it is for the versions that came past the clock, or since the stamp was taken. -/
def OutranksForeign (history : Provenance ν) (thread : Nat) (action : I.Action) (_ : I.Input)
    (world : I.World) : Prop :=
  ∀ stamp, reg.puts action = some (stamp, true) →
    (∀ version, reg.stored world = some version → Foreign history thread version →
      version < stamp) ∧
      ∀ version ∈ reg.adopted world, Foreign history thread version → version ≤ stamp

/-- A local put is of the stamp that was taken, a feed is of what was observed. -/
def Next : Stages I (Stamper ν) := fun stage action reply after =>
  match stage with
  | .feeding observed =>
      reg.stamps action = none ∧
        (∀ version isLocal, reg.puts action = some (version, isLocal) →
          isLocal = false ∧ observed = some version) ∧
        after = .feeding ((reg.observes action).or observed)
  | stage =>
      (∀ stamp, reg.puts action = some (stamp, true) → stage = .holding stamp) ∧
        match reg.puts action, reg.stamps action with
        | some (_, true), _ => after = .idle
        | _, some look => after = .holding (look reply)
        | _, none => after = stage

/-- The clock has met every version, but for those that came past it. -/
def Met (world : I.World) (history : Provenance ν) : Prop :=
  ∀ version ∈ reg.versions world, version ≤ reg.clock world ∨ version ∈ history.outside

/-- What a thread that is not behind brings the clock has met. A stamp held is above every
version it accounts for. -/
def Knows (thread : Nat) : Stamper ν → I.World × Provenance ν → Prop
  | .idle, _ => feeds thread = false
  | .holding stamp, state => feeds thread = false ∧
      (state.2.behind thread = false → stamp ≤ reg.clock state.1) ∧
      ∀ version ∈ reg.versions state.1, version < stamp ∨ Foreign state.2 thread version
  | .feeding observed, state => feeds thread = true ∧ ∀ version, observed = some version →
      state.2.behind thread = false → version ≤ reg.clock state.1

variable {reg feeds} {thread other : Nat} {stage after : Stamper ν} {action : I.Action}
  {input : I.Input} {world : I.World} {history : Provenance ν} {version : ν}

theorem mem_versions : version ∈ reg.versions world ↔
    reg.stored world = some version ∨ version ∈ reg.adopted world := by
  simp [versions]

/-- A version was there before, or the action brings it. -/
theorem mem_versions_perform
    (h : version ∈ reg.versions (I.perform action input world).2) :
    version ∈ reg.versions world ∨ reg.enters action input world = some version := by
  unfold enters
  rw [mem_versions] at h ⊢
  rcases h with hstored | hadopted
  · cases hputs : reg.puts action with
    | some put =>
        obtain ⟨put, isLocal⟩ := put
        exact Or.inr ((reg.put_stored hputs input world).symm.trans hstored)
    | none =>
        dsimp only
        split
        · rename_i hsame
          exact Or.inl (Or.inl (hsame.symm.trans hstored))
        · exact Or.inr hstored
  · rcases reg.put_adopted hadopted with hold | hputs
    · exact Or.inl (Or.inr hold)
    · exact Or.inr (by rw [hputs])

theorem mem_outside_mark (h : version ∈ history.outside) :
    version ∈ (reg.mark feeds thread action input world history).outside :=
  List.mem_append_left _ h

/-- What an action brings is foreign to every stamp that is held on. -/
theorem Foreign.enters (h : reg.enters action input world = some version)
    (hstays : other ≠ thread ∨ (reg.stamps action).isSome = false) :
    Foreign (reg.mark feeds thread action input world history) other version := by
  have hbrings : version ∈ reg.window.brings action input world := by simp [window, h]
  right
  show version ∈ reg.window.mark thread action input world history.since other
  rcases hstays with hne | hstays
  · rw [Window.mark_other hne]
    exact List.mem_append_right _ hbrings
  · rw [Window.mark_stays hstays]
    exact List.mem_append_right _ hbrings

theorem Foreign.mark (h : Foreign history other version)
    (hstays : other ≠ thread ∨ (reg.stamps action).isSome = false) :
    Foreign (reg.mark feeds thread action input world history) other version := by
  rcases h with houtside | hsince
  · exact Or.inl (mem_outside_mark houtside)
  · exact Or.inr (Window.mem_mark hsince hstays)

/-- Who is not behind after an action was not before, or it stamped, or the clock took in
what it brings. The clock has not gone back. -/
theorem of_falls {behind : Nat → Bool}
    (h : reg.falls feeds thread action input behind other = false) :
    reg.restarts action = false ∧
      (behind other = false ∨ other = thread ∧ ((reg.stamps action).isSome = true ∨
        feeds thread = true ∧ (reg.observes action).isSome = true)) := by
  unfold falls at h
  split at h
  · cases h
  · rename_i hrestarts
    refine ⟨by simpa using hrestarts, ?_⟩
    by_cases hsame : other = thread
    · cases hstamps : reg.stamps action with
      | some look => exact Or.inr ⟨hsame, Or.inl rfl⟩
      | none =>
          cases hobserves : reg.observes action with
          | some version =>
              cases hfeeds : feeds thread with
              | true => exact Or.inr ⟨hsame, Or.inr ⟨rfl, rfl⟩⟩
              | false => exact Or.inl (by simpa [hstamps, hobserves, hfeeds] using h)
          | none => exact Or.inl (by simpa [hstamps, hobserves] using h)
    · left
      cases hstamps : reg.stamps action <;> cases hobserves : reg.observes action <;>
        cases hfeeds : feeds thread <;>
        simpa [hstamps, hobserves, hfeeds, Function.update_of_ne hsame] using h

/-- What a thread brings that is not past the clock the clock has met. -/
theorem Knows.met (h : reg.Knows feeds thread stage (world, history))
    (hnext : reg.Next stage action (I.perform action input world).1 after)
    (hpast : reg.past feeds history thread action = false)
    (henters : reg.enters action input world = some version) : version ≤ reg.clock world := by
  unfold past at hpast
  split at hpast
  · rename_i put isLocal hputs
    obtain rfl : put = version := by simpa [enters, hputs] using henters
    simp only [Bool.or_eq_false_iff, Bool.not_eq_false', Bool.or_eq_true] at hpast
    obtain ⟨hbehind, hkind⟩ := hpast
    cases stage with
    | feeding observed =>
        obtain ⟨-, hfeeds, -⟩ := hnext
        exact h.2 put (hfeeds put isLocal hputs).2 hbehind
    | idle =>
        rcases hkind with rfl | hfeeds
        · cases hnext.1 put hputs
        · cases hfeeds.symm.trans h
    | holding stamp =>
        rcases hkind with rfl | hfeeds
        · cases hnext.1 put hputs
          exact h.2.1 hbehind
        · cases hfeeds.symm.trans h.1
  · cases hpast

/-- Every action keeps the clock ahead of what it has met. -/
theorem Met.mark (h : reg.Met world history)
    (hknows : reg.Knows feeds thread stage (world, history))
    (hnext : reg.Next stage action (I.perform action input world).1 after) :
    reg.Met (I.perform action input world).2
      (reg.mark feeds thread action input world history) := by
  intro version hversion
  cases hrestarts : reg.restarts action with
  | true =>
      right
      simp [Register.mark, hrestarts, hversion]
  | false =>
      have hforward := reg.forward hrestarts input world
      rcases mem_versions_perform hversion with hold | henters
      · rcases h version hold with hmet | houtside
        · exact Or.inl (hmet.trans hforward)
        · exact Or.inr (mem_outside_mark houtside)
      · cases hpast : reg.past feeds history thread action with
        | true =>
            right
            simp [Register.mark, hrestarts, hpast, henters]
        | false => exact Or.inl ((hknows.met hnext hpast henters).trans hforward)

/-- What a thread knows it knows after an action by which it takes no stamp, and observes
nothing that it feeds. -/
theorem Knows.mark (h : reg.Knows feeds other stage (world, history))
    (hstays : other ≠ thread ∨ (reg.stamps action).isSome = false ∧
      (feeds thread = true → (reg.observes action).isSome = false)) :
    reg.Knows feeds other stage ((I.perform action input world).2,
      reg.mark feeds thread action input world history) := by
  have hclock : ∀ {version}, (reg.mark feeds thread action input world history).behind other =
      false → (history.behind other = false → version ≤ reg.clock world) →
      version ≤ reg.clock (I.perform action input world).2 := by
    intro version hbehind hmet
    obtain ⟨hrestarts, hold | ⟨hsame, hmoves⟩⟩ := of_falls hbehind
    · exact (hmet hold).trans (reg.forward hrestarts input world)
    · rcases hstays with hne | ⟨hstamps, hobserves⟩
      · exact absurd hsame hne
      · rcases hmoves with hstamped | ⟨hfeeds, hobserved⟩
        · cases hstamps.symm.trans hstamped
        · cases (hobserves hfeeds).symm.trans hobserved
  have hwindow : other ≠ thread ∨ (reg.stamps action).isSome = false :=
    hstays.imp_right And.left
  cases stage with
  | idle => exact h
  | holding stamp =>
      obtain ⟨hfeeds, hmet, habove⟩ := h
      refine ⟨hfeeds, fun hbehind => hclock hbehind hmet, fun version hversion => ?_⟩
      rcases mem_versions_perform hversion with hold | henters
      · exact (habove version hold).imp_right fun hforeign => hforeign.mark hwindow
      · exact Or.inr (Foreign.enters henters hwindow)
  | feeding observed =>
      exact ⟨h.1, fun version hobserved hbehind => hclock hbehind (h.2 version hobserved)⟩

/-- A stamp that is taken is above all the clock has met. -/
theorem Met.holds (h : reg.Met world history) (hfeeds : feeds thread = false)
    {look : I.Reply action → ν} (hstamps : reg.stamps action = some look) :
    reg.Knows feeds thread (.holding (look (I.perform action input world).1))
      ((I.perform action input world).2,
        reg.mark feeds thread action input world history) := by
  obtain ⟨hputs, hstamped⟩ := reg.stamped hstamps
  obtain ⟨hsame, habove, hclock⟩ := hstamped input world
  refine ⟨hfeeds, fun _ => hclock, fun version hversion => ?_⟩
  have hold : version ∈ reg.versions world := by
    rcases mem_versions_perform hversion with hold | henters
    · exact hold
    · simp [enters, hputs, hsame] at henters
  rcases h version hold with hmet | houtside
  · exact Or.inl (hmet.trans_lt habove)
  · exact Or.inr (Or.inl (mem_outside_mark houtside))

/-- What a thread knows after its own action. -/
theorem Met.own (h : reg.Met world history)
    (hknows : reg.Knows feeds thread stage (world, history))
    (hnext : reg.Next stage action (I.perform action input world).1 after) :
    reg.Knows feeds thread after ((I.perform action input world).2,
      reg.mark feeds thread action input world history) := by
  cases stage with
  | feeding observed =>
      obtain ⟨hfeeds, hmet⟩ := hknows
      obtain ⟨hstamps, -, rfl⟩ := hnext
      cases hobserves : reg.observes action with
      | none =>
          have hfed : reg.Knows feeds thread (.feeding observed) (world, history) :=
            ⟨hfeeds, hmet⟩
          exact hfed.mark (Or.inr ⟨by simp [hstamps], fun _ => by simp [hobserves]⟩)
      | some remote =>
          refine ⟨hfeeds, ?_⟩
          rintro version ⟨⟩ hbehind
          have hfalls : reg.falls feeds thread action input history.behind thread = false :=
            hbehind
          simp only [falls, hstamps, hobserves, hfeeds, if_true] at hfalls
          split at hfalls
          · cases hfalls
          · exact reg.folded hobserves input (by simpa using hfalls) world
  | idle | holding stamp =>
      obtain ⟨-, hafter⟩ := hnext
      have hfeeds : feeds thread = false := by
        first
          | exact hknows
          | exact hknows.1
      split at hafter
      · subst hafter
        exact hfeeds
      · rename_i look hstamps _
        subst hafter
        exact h.holds hfeeds hstamps
      · rename_i hstamps _
        subst hafter
        exact hknows.mark (Or.inr ⟨by simp [hstamps], fun hfed => by simp [hfeeds] at hfed⟩)

/-- What the threads of a run know, whatever the schedule. -/
def upkeep (reg : Register I ν) (feeds : Nat → Bool) :
    Upkeep I (Stamper ν) (Provenance ν) fun _ _ _ _ _ => True where
  next := reg.Next
  mark := reg.mark feeds
  Inv state := reg.Met state.1 state.2
  Knows := reg.Knows feeds
  own := fun hmet hknows _ hnext => ⟨hmet.mark hknows hnext, hmet.own hknows hnext⟩
  others := fun _ _ _ _ _ _ hne hother => hother.mark (Or.inl hne)

/-- A stamp outranks the register when it outranks what it does not account for. -/
theorem outranks_iff (hknows : reg.Knows feeds thread stage (world, history))
    {reply : I.Reply action} (hnext : reg.Next stage action reply after) :
    reg.Outranks action input world ↔
      reg.OutranksForeign history thread action input world := by
  refine forall_congr' fun stamp => forall_congr' fun hputs => ?_
  have habove : ∀ version ∈ reg.versions world, version < stamp ∨
      Foreign history thread version := by
    cases stage with
    | feeding observed => cases (hnext.2.1 stamp true hputs).1
    | idle => cases hnext.1 stamp hputs
    | holding held =>
        cases hnext.1 stamp hputs
        exact hknows.2.2
  constructor
  · rintro ⟨hstored, hadopted⟩
    exact ⟨fun version hversion _ => hstored version hversion,
      fun version hversion _ => hadopted version hversion⟩
  · rintro ⟨hstored, hadopted⟩
    refine ⟨fun version hversion => ?_, fun version hversion => ?_⟩
    · rcases habove version (mem_versions.mpr (Or.inl hversion)) with hlt | hforeign
      · exact hlt
      · exact hstored version hversion hforeign
    · rcases habove version (mem_versions.mpr (Or.inr hversion)) with hlt | hforeign
      · exact hlt.le
      · exact hadopted version hversion hforeign

/-- A thread that feeds nothing may do anything but put a stamp that it does not hold. -/
theorem next_writes (hwrites : stage.Writes)
    (hputs : ∀ stamp, reg.puts action = some (stamp, true) → stage = .holding stamp)
    (reply : I.Reply action) : ∃ after, reg.Next stage action reply after ∧ after.Writes := by
  cases stage with
  | feeding observed => exact hwrites.elim
  | idle | holding stamp =>
      simp only [Next]
      split
      · exact ⟨_, ⟨hputs, rfl⟩, trivial⟩
      · exact ⟨_, ⟨hputs, rfl⟩, trivial⟩
      · exact ⟨_, ⟨hputs, rfl⟩, trivial⟩

theorem follows_of_only {program : Prog I α} (hwrites : stage.Writes)
    (honly : program.Only fun action => ∀ stamp, reg.puts action ≠ some (stamp, true)) :
    program.Follows reg.Next (fun _ _ => True) stage := by
  have hstays : program.Follows reg.Next (fun _ => Stamper.Writes) stage :=
    Prog.Follows.of_only (fun stage action reply hwrites hclean =>
      next_writes hwrites (fun stamp hputs => absurd hputs (hclean stamp)) reply) honly hwrites
  exact hstays.mono fun _ _ _ => trivial

/-- Along every run the stamps outrank the register exactly when they outrank what came past
the clock or since they were taken. -/
theorem along_outranks_iff {pool : Pool I α} (schedule : List (Pool.Turn I))
    (hnext : ∀ (i : Nat) (program : Prog I α), pool.threads[i]? = some program →
      program.Follows reg.Next (fun _ _ => True)
        (if feeds i then .feeding none else .idle)) :
    pool.Heeds reg.Outranks schedule ↔
      pool.Watched (reg.mark feeds) reg.OutranksForeign schedule (reg.start pool.world) := by
  have hkept : Pool.Kept (reg.upkeep feeds) pool (reg.start pool.world) := by
    refine ⟨fun _ hversion => Or.inr hversion, fun i program hprogram => ?_⟩
    refine ⟨_, hnext i program hprogram, ?_⟩
    cases hfeeds : feeds i with
    | true => exact ⟨hfeeds, nofun⟩
    | false => exact hfeeds
  refine (Pool.watched_iff_along (reg.mark feeds) (fun _ => reg.Outranks) pool schedule
    (reg.start pool.world)).symm.trans ?_
  exact hkept.watched_iff (fun _ _ _ _ _ _ => trivial) fun _ hknows hnext =>
    outranks_iff hknows hnext

end Register

end Async
