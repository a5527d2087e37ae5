import ZedSync.Lib.Run

/-!
Asynchronous programs over a shared world. A program asks for one atomic
action at a time; between two actions anything else may happen. The same
program is run alone to its end, or as one thread of a pool under an arbitrary
schedule. The rely/guarantee rule at the end is the induction over schedules,
done once.
-/

namespace Async

/-- The atomic actions of a language: what each returns, and how it changes the
world when the outside answers it with a given input. -/
structure Interface where
  World : Type
  Input : Type
  noInput : Input
  Action : Type
  Reply : Action → Type
  perform : (action : Action) → Input → World → Reply action × World

/-- A program: finished, or one action and what to do with its reply. -/
inductive Prog (I : Interface) (α : Type) : Type where
  | ret (value : α) : Prog I α
  | call (action : I.Action) (next : I.Reply action → Prog I α) : Prog I α

namespace Prog

variable {I : Interface} {α β : Type}

def bind : Prog I α → (α → Prog I β) → Prog I β
  | .ret value, f => f value
  | .call action next, f => .call action fun reply => (next reply).bind f

instance : Monad (Prog I) where
  pure := Prog.ret
  bind := Prog.bind

@[simp] theorem pure_eq (value : α) : (pure value : Prog I α) = .ret value := rfl

@[simp] theorem ret_bind (value : α) (f : α → Prog I β) :
    (Prog.ret value >>= f) = f value := rfl

@[simp] theorem call_bind (action : I.Action) (next : I.Reply action → Prog I α)
    (f : α → Prog I β) :
    (Prog.call action next >>= f) = .call action fun reply => next reply >>= f := rfl

/-- Run alone to the end. The inputs answer the actions in order. -/
def run : Prog I α → List I.Input → I.World → α × I.World
  | .ret value, _, world => (value, world)
  | .call action next, inputs, world =>
      let outcome := I.perform action (inputs.headD I.noInput) world
      (next outcome.1).run inputs.tail outcome.2

/-- One action, answered with the input; a finished program stays as it is. -/
def advance : Prog I α → I.Input → I.World → Prog I α × I.World
  | .ret value, _, world => (.ret value, world)
  | .call action next, input, world =>
      let outcome := I.perform action input world
      (next outcome.1, outcome.2)

/-- Nothing is left to perform. -/
def finished : Prog I α → Bool
  | .ret _ => true
  | .call _ _ => false

theorem eq_ret_of_finished {program : Prog I α} (h : program.finished = true) :
    ∃ value, program = .ret value := by
  cases program with
  | ret value => exact ⟨value, rfl⟩
  | call action next => simp [finished] at h

/-- Every action of the program is an allowed one, whatever the replies are. -/
def Only (allowed : I.Action → Prop) : Prog I α → Prop
  | .ret _ => True
  | .call action next => allowed action ∧ ∀ reply, (next reply).Only allowed

theorem Only.bind {allowed : I.Action → Prop} {program : Prog I α} {f : α → Prog I β}
    (h : program.Only allowed) (hf : ∀ value, (f value).Only allowed) :
    (program >>= f).Only allowed := by
  induction program with
  | ret value => exact hf value
  | call action next ih => exact ⟨h.1, fun reply => ih reply (h.2 reply)⟩

theorem Only.mono {allowed allowed' : I.Action → Prop} {program : Prog I α}
    (h : program.Only allowed) (hle : ∀ action, allowed action → allowed' action) :
    program.Only allowed' := by
  induction program with
  | ret value => trivial
  | call action next ih => exact ⟨hle action h.1, fun reply => ih reply (h.2 reply)⟩

theorem only_of_forall {allowed : I.Action → Prop} (h : ∀ action, allowed action)
    (program : Prog I α) : program.Only allowed := by
  induction program with
  | ret value => trivial
  | call action next ih => exact ⟨h action, ih⟩

/-- No action of the program is a bad one before a reply that opens the way. -/
def Guarded (bad : I.Action → Prop) (opens : (action : I.Action) → I.Reply action → Prop) :
    Prog I α → Prop
  | .ret _ => True
  | .call action next =>
      ¬ bad action ∧ ∀ reply, opens action reply ∨ (next reply).Guarded bad opens

theorem Guarded.bind {bad : I.Action → Prop}
    {opens : (action : I.Action) → I.Reply action → Prop} {program : Prog I α}
    {f : α → Prog I β} (h : program.Guarded bad opens)
    (hf : ∀ value, (f value).Guarded bad opens) : (program >>= f).Guarded bad opens := by
  induction program with
  | ret value => exact hf value
  | call action next ih => exact ⟨h.1, fun reply => (h.2 reply).imp_right (ih reply)⟩

/-- `program.Sat C R G Q world`: however the outside answers, each action of
the program that meets `C` is a `G` step, while the others make `R` steps in
between, and the program's result satisfies `Q`. -/
def Sat (C : I.Action → I.World → Prop) (R G : I.World → I.World → Prop)
    (Q : α → I.World → Prop) : Prog I α → I.World → Prop
  | .ret value, world => ∀ later, R world later → Q value later
  | .call action next, world =>
      ∀ later, R world later → C action later → ∀ input,
        G later (I.perform action input later).2 ∧
          (next (I.perform action input later).1).Sat C R G Q
            (I.perform action input later).2

theorem Sat.rely {C : I.Action → I.World → Prop} {R G : I.World → I.World → Prop}
    {Q : α → I.World → Prop} (htrans : ∀ {a b c}, R a b → R b c → R a c)
    {program : Prog I α} {world later : I.World}
    (h : program.Sat C R G Q world) (hstep : R world later) :
    program.Sat C R G Q later := by
  cases program with
  | ret value =>
      intro final hfinal
      exact h final (htrans hstep hfinal)
  | call action next =>
      intro final hfinal hmeets input
      exact h final (htrans hstep hfinal) hmeets input

theorem Sat.bind {C : I.Action → I.World → Prop} {R G : I.World → I.World → Prop}
    {Q : α → I.World → Prop} {Q' : β → I.World → Prop}
    (hrefl : ∀ a, R a a) {program : Prog I α} {f : α → Prog I β} {world : I.World}
    (h : program.Sat C R G Q world)
    (hf : ∀ value later, Q value later → (f value).Sat C R G Q' later) :
    (program >>= f).Sat C R G Q' world := by
  induction program generalizing world with
  | ret value => exact hf value world (h world (hrefl world))
  | call action next ih =>
      intro later hlater hmeets input
      obtain ⟨hstep, hrest⟩ := h later hlater hmeets input
      exact ⟨hstep, ih _ hrest⟩

/-- A program whose every action keeps `P`, and is a `G` step where `P` holds. -/
theorem Sat.of_only {C : I.Action → I.World → Prop} {R G : I.World → I.World → Prop}
    {allowed : I.Action → Prop} {P : I.World → Prop}
    (hstable : ∀ a b, P a → R a b → P b)
    (hstep : ∀ action input world, allowed action → P world → C action world →
      G world (I.perform action input world).2 ∧ P (I.perform action input world).2)
    {program : Prog I α} {world : I.World} (honly : program.Only allowed) (h : P world) :
    program.Sat C R G (fun _ => P) world := by
  induction program generalizing world with
  | ret value => exact fun later hlater => hstable _ _ h hlater
  | call action next ih =>
      intro later hlater hmeets input
      obtain ⟨hG, hP⟩ := hstep action input later honly.1 (hstable _ _ h hlater) hmeets
      exact ⟨hG, ih _ (honly.2 _) hP⟩

/-- Every action of the program, run alone, is performed in a world satisfying
`C`. -/
def Meets (C : I.Action → I.World → Prop) : Prog I α → List I.Input → I.World → Prop
  | .ret _, _, _ => True
  | .call action next, inputs, world =>
      C action world ∧
        (next (I.perform action (inputs.headD I.noInput) world).1).Meets C inputs.tail
          (I.perform action (inputs.headD I.noInput) world).2

instance instDecidableMeets {C : I.Action → I.World → Prop}
    [∀ action world, Decidable (C action world)] :
    ∀ (program : Prog I α) (inputs : List I.Input) (world : I.World),
      Decidable (program.Meets C inputs world)
  | .ret _, _, _ => inferInstanceAs (Decidable True)
  | .call action next, inputs, world =>
      have : Decidable ((next (I.perform action (inputs.headD I.noInput) world).1).Meets C
          inputs.tail (I.perform action (inputs.headD I.noInput) world).2) :=
        instDecidableMeets _ _ _
      inferInstanceAs (Decidable (_ ∧ _))

/-- A program that relies on nothing else running keeps its promise alone. -/
theorem Sat.alone {C : I.Action → I.World → Prop} {G : I.World → I.World → Prop}
    {Q : α → I.World → Prop} {program : Prog I α} {inputs : List I.Input} {world : I.World}
    (h : program.Sat C Eq G Q world) (hmeets : program.Meets C inputs world) :
    Q (program.run inputs world).1 (program.run inputs world).2 := by
  induction program generalizing inputs world with
  | ret value => exact h world rfl
  | call action next ih =>
      obtain ⟨hnow, hrest⟩ := hmeets
      exact ih _ (h world rfl hnow _).2 hrest

theorem meets_of_forall {C : I.Action → I.World → Prop} (h : ∀ action world, C action world)
    (program : Prog I α) (inputs : List I.Input) (world : I.World) :
    program.Meets C inputs world := by
  induction program generalizing inputs world with
  | ret value => trivial
  | call action next ih => exact ⟨h action world, ih _ _ _⟩

/-- The result of a run may be rewritten at its end. -/
@[simp] theorem run_map (f : α → β) (program : Prog I α) (inputs : List I.Input)
    (world : I.World) :
    (program >>= fun value => .ret (f value)).run inputs world =
      (f (program.run inputs world).1, (program.run inputs world).2) := by
  induction program generalizing inputs world with
  | ret value => rfl
  | call action next ih => exact ih _ _ _

end Prog

/-- A pool of threads over one world. -/
structure Pool (I : Interface) (α : Type) where
  world : I.World
  threads : List (Prog I α)

namespace Pool

variable {I : Interface} {α : Type}

/-- One turn: a thread, and the input that answers its next action. -/
abbrev Turn (I : Interface) := Nat × I.Input

/-- The chosen thread performs its next action; a finished one does nothing. -/
def step (pool : Pool I α) (turn : Turn I) : Pool I α :=
  match pool.threads[turn.1]? with
  | some (.call action next) =>
      let outcome := I.perform action turn.2 pool.world
      { world := outcome.2, threads := pool.threads.set turn.1 (next outcome.1) }
  | _ => pool

def run (pool : Pool I α) (schedule : List (Turn I)) : Pool I α :=
  Run.final step pool schedule

@[simp] theorem run_cons (pool : Pool I α) (turn : Turn I) (schedule : List (Turn I)) :
    pool.run (turn :: schedule) = (pool.step turn).run schedule := rfl

/-- Every turn of the schedule is taken in a pool satisfying `P`. -/
abbrev Along (P : Pool I α → Turn I → Prop) : Pool I α → List (Turn I) → Prop :=
  Run.Along step P

/-- What the chosen thread performs on this turn, if anything, satisfies `C`. -/
def Takes (C : I.Action → I.Input → I.World → Prop) (pool : Pool I α) (turn : Turn I) : Prop :=
  ∀ action next, pool.threads[turn.1]? = some (.call action next) →
    C action turn.2 pool.world

instance {C : I.Action → I.Input → I.World → Prop}
    [∀ action input world, Decidable (C action input world)] (pool : Pool I α) (turn : Turn I) :
    Decidable (Takes C pool turn) :=
  match h : pool.threads[turn.1]? with
  | none => .isTrue fun _ _ hsome => nomatch h.symm.trans hsome
  | some (.ret _) => .isTrue fun _ _ hcall => nomatch h.symm.trans hcall
  | some (.call action next) =>
      decidable_of_iff (C action turn.2 pool.world)
        ⟨fun hC _ _ hcall => by
          obtain ⟨rfl, -⟩ := by simpa using h.symm.trans hcall
          exact hC,
        fun htakes => htakes action next h⟩

/-- Every action of the schedule is performed as `C` allows. -/
def Heeds (C : I.Action → I.Input → I.World → Prop) : Pool I α → List (Turn I) → Prop :=
  Along (Takes C)

instance {C : I.Action → I.Input → I.World → Prop}
    [∀ action input world, Decidable (C action input world)] (pool : Pool I α)
    (schedule : List (Turn I)) : Decidable (Heeds C pool schedule) :=
  inferInstanceAs (Decidable (Along (Takes C) pool schedule))

/-- Every action of the schedule is performed in a world satisfying `C`. -/
def Meets (C : I.Action → I.World → Prop) : Pool I α → List (Turn I) → Prop :=
  Heeds fun action _ world => C action world

instance {C : I.Action → I.World → Prop} [∀ action world, Decidable (C action world)]
    (pool : Pool I α) (schedule : List (Turn I)) : Decidable (Meets C pool schedule) :=
  inferInstanceAs (Decidable (Heeds _ pool schedule))

/-- Every thread has finished. -/
def Done (pool : Pool I α) : Prop :=
  ∀ program ∈ pool.threads, program.finished = true

instance (pool : Pool I α) : Decidable pool.Done :=
  inferInstanceAs (Decidable (∀ program ∈ pool.threads, program.finished = true))

theorem step_call {pool : Pool I α} {turn : Turn I} {action : I.Action}
    {next : I.Reply action → Prog I α}
    (h : pool.threads[turn.1]? = some (.call action next)) :
    pool.step turn =
      { world := (I.perform action turn.2 pool.world).2,
        threads := pool.threads.set turn.1
          (next (I.perform action turn.2 pool.world).1) } := by
  simp [step, h]

theorem step_idle {pool : Pool I α} {turn : Turn I}
    (h : ∀ action next, pool.threads[turn.1]? ≠ some (.call action next)) :
    pool.step turn = pool := by
  cases hthread : pool.threads[turn.1]? with
  | none => simp [step, hthread]
  | some program =>
      cases program with
      | ret value => simp [step, hthread]
      | call action next => exact absurd hthread (h action next)

/-- A turn advances the chosen thread. -/
theorem step_advance {pool : Pool I α} {turn : Turn I} {program : Prog I α}
    (h : pool.threads[turn.1]? = some program) :
    pool.step turn =
      { world := (program.advance turn.2 pool.world).2,
        threads := pool.threads.set turn.1 (program.advance turn.2 pool.world).1 } := by
  cases program with
  | ret value =>
      obtain ⟨hlt, hthread⟩ := List.getElem?_eq_some_iff.mp h
      have hsame : pool.threads.set turn.1 (.ret value) = pool.threads := by
        rw [← hthread, List.set_getElem_self]
      rw [Prog.advance, hsame, step_idle]
      intro action next hcall
      rw [h] at hcall
      cases hcall
  | call action next => exact step_call h

/-- A turn is idle, or it is one action of one thread. -/
theorem step_cases (pool : Pool I α) (turn : Turn I) :
    pool.step turn = pool ∨
      ∃ action next, pool.threads[turn.1]? = some (.call action next) ∧
        pool.step turn =
          { world := (I.perform action turn.2 pool.world).2,
            threads := pool.threads.set turn.1
              (next (I.perform action turn.2 pool.world).1) } := by
  by_cases h : ∃ action next, pool.threads[turn.1]? = some (.call action next)
  · obtain ⟨action, next, hthread⟩ := h
    exact Or.inr ⟨action, next, hthread, step_call hthread⟩
  · exact Or.inl (step_idle fun action next hthread => h ⟨action, next, hthread⟩)

@[simp] theorem step_length (pool : Pool I α) (turn : Turn I) :
    (pool.step turn).threads.length = pool.threads.length := by
  rcases step_cases pool turn with hidle | ⟨action, next, _, hstep⟩
  · rw [hidle]
  · rw [hstep, List.length_set]

/-- No thread ever joins or leaves. -/
@[simp] theorem run_length (pool : Pool I α) (schedule : List (Turn I)) :
    (pool.run schedule).threads.length = pool.threads.length := by
  induction schedule generalizing pool with
  | nil => rfl
  | cons turn schedule ih => rw [run_cons, ih, step_length]

theorem getElem?_set_some {threads : List (Prog I α)} {i j : Nat}
    {old moved program : Prog I α} (hold : threads[i]? = some old)
    (h : (threads.set i moved)[j]? = some program) :
    (j = i ∧ program = moved) ∨ (j ≠ i ∧ threads[j]? = some program) := by
  by_cases hij : j = i
  · subst hij
    obtain ⟨hlt, _⟩ := List.getElem?_eq_some_iff.mp hold
    rw [List.getElem?_set_self hlt] at h
    exact Or.inl ⟨rfl, (Option.some.inj h).symm⟩
  · rw [List.getElem?_set_ne (Ne.symm hij)] at h
    exact Or.inr ⟨hij, h⟩

/-- Each thread keeps to the actions allowed to it. -/
def Each (allowed : Nat → I.Action → Prop) (pool : Pool I α) : Prop :=
  ∀ (i : Nat) (program : Prog I α), pool.threads[i]? = some program → program.Only (allowed i)

theorem Each.step {allowed : Nat → I.Action → Prop} {pool : Pool I α} (h : pool.Each allowed)
    (turn : Turn I) : (pool.step turn).Each allowed := by
  rcases step_cases pool turn with hidle | ⟨action, next, hthread, hstep⟩
  · rw [hidle]
    exact h
  · rw [hstep]
    intro i program hprogram
    rcases getElem?_set_some hthread hprogram with ⟨rfl, rfl⟩ | ⟨-, hother⟩
    · exact (h turn.1 _ hthread).2 _
    · exact h i program hother

/-- Where the way stays shut under what the threads do, and every thread would need it
opened first, no thread does anything bad. -/
theorem heeds_of_guarded {bad allowed : I.Action → Prop}
    {opens : (action : I.Action) → I.Reply action → Prop} {Shut : I.World → Prop}
    (hshut : ∀ action input world, allowed action → Shut world →
      Shut (I.perform action input world).2 ∧ ¬ opens action (I.perform action input world).1)
    {pool : Pool I α} (schedule : List (Turn I)) (hworld : Shut pool.world)
    (hallowed : pool.Each fun _ => allowed)
    (hguarded : ∀ program ∈ pool.threads, program.Guarded bad opens) :
    pool.Heeds (fun action _ _ => ¬ bad action) schedule := by
  induction schedule generalizing pool with
  | nil => trivial
  | cons turn schedule ih =>
      refine ⟨?_, ?_⟩
      · intro action next hthread
        exact (hguarded _ (List.mem_of_getElem? hthread)).1
      · rcases step_cases pool turn with hidle | ⟨action, next, hthread, hstep⟩
        · rw [hidle]
          exact ih hworld hallowed hguarded
        · obtain ⟨hstill, hclosed⟩ :=
            hshut action turn.2 pool.world (hallowed turn.1 _ hthread).1 hworld
          have heach := hallowed.step turn
          rw [hstep] at heach ⊢
          refine ih hstill heach ?_
          intro program hprogram
          rcases List.mem_or_eq_of_mem_set hprogram with hother | hmoved
          · exact hguarded program hother
          · have hthreadGuarded := hguarded _ (List.mem_of_getElem? hthread)
            rw [hmoved]
            exact (hthreadGuarded.2 _).resolve_left hclosed

/-- Rely/guarantee composition. When each thread satisfies its own
specification, and what one thread guarantees the others rely on, every thread
still satisfies its specification after any schedule that meets `C`. `T` is
what an observer outside the pool may rely on. -/
theorem sat_run {C : I.Action → I.World → Prop}
    {R G : Nat → I.World → I.World → Prop} {Q : Nat → α → I.World → Prop}
    {T : I.World → I.World → Prop}
    (hrefl : ∀ i a, R i a a) (htrans : ∀ i {a b c}, R i a b → R i b c → R i a c)
    (hcompat : ∀ i j a b, i ≠ j → G i a b → R j a b)
    (hTrefl : ∀ a, T a a) (hTtrans : ∀ {a b c}, T a b → T b c → T a c)
    (hTcompat : ∀ i a b, G i a b → T a b)
    (pool : Pool I α) (schedule : List (Turn I))
    (hsat : ∀ (i : Nat) (program : Prog I α), pool.threads[i]? = some program →
      program.Sat C (R i) (G i) (Q i) pool.world)
    (hmeets : Meets C pool schedule) :
    T pool.world (pool.run schedule).world ∧
    ∀ (i : Nat) (program : Prog I α), (pool.run schedule).threads[i]? = some program →
      program.Sat C (R i) (G i) (Q i) (pool.run schedule).world := by
  refine Run.induction (J := fun later => T pool.world later.world ∧
    ∀ (i : Nat) (program : Prog I α), later.threads[i]? = some program →
      program.Sat C (R i) (G i) (Q i) later.world)
    ?_ ⟨hTrefl _, hsat⟩ hmeets
  intro later turn hinv hmeets
  obtain ⟨hseen, hthreads⟩ := hinv
  rcases step_cases later turn with hidle | ⟨action, next, hthread, hstep⟩
  · rw [hidle]
    exact ⟨hseen, hthreads⟩
  · have hturn := hthreads turn.1 _ hthread later.world (hrefl _ _)
      (hmeets action next hthread) turn.2
    rw [hstep]
    refine ⟨hTtrans hseen (hTcompat turn.1 _ _ hturn.1), ?_⟩
    intro i program hprogram
    rcases getElem?_set_some hthread hprogram with ⟨rfl, rfl⟩ | ⟨hne, hother⟩
    · exact hturn.2
    · have hrely := hcompat turn.1 i _ _ (Ne.symm hne) hturn.1
      exact Prog.Sat.rely (@htrans i) (hthreads i program hother) hrely

/-- A finished thread has what its specification promises. -/
theorem Done.result {C : I.Action → I.World → Prop} {R G : I.World → I.World → Prop}
    {Q : α → I.World → Prop} (hrefl : ∀ a, R a a) {pool : Pool I α} (hdone : pool.Done)
    {i : Nat} {program : Prog I α} (hprogram : pool.threads[i]? = some program)
    (hsat : program.Sat C R G Q pool.world) :
    ∃ value, pool.threads[i]? = some (.ret value) ∧ Q value pool.world := by
  obtain ⟨value, rfl⟩ :=
    Prog.eq_ret_of_finished (hdone program (List.mem_of_getElem? hprogram))
  exact ⟨value, hprogram, hsat _ (hrefl _)⟩

/-- Two threads, each guaranteeing what the other relies on. -/
theorem sat_pair {C : I.Action → I.World → Prop} {R S : I.World → I.World → Prop}
    {P Q : α → I.World → Prop}
    (hRrefl : ∀ a, R a a) (hRtrans : ∀ {a b c}, R a b → R b c → R a c)
    (hSrefl : ∀ a, S a a) (hStrans : ∀ {a b c}, S a b → S b c → S a c)
    (world : I.World) (first second : Prog I α) (schedule : List (Turn I))
    (hfirst : first.Sat C R S P world) (hsecond : second.Sat C S R Q world)
    (hmeets : Meets C { world := world, threads := [first, second] } schedule)
    (hdone : (run { world := world, threads := [first, second] } schedule).Done) :
    ∃ value value',
      (run { world := world, threads := [first, second] } schedule).threads =
        [.ret value, .ret value'] ∧
      P value (run { world := world, threads := [first, second] } schedule).world ∧
      Q value' (run { world := world, threads := [first, second] } schedule).world := by
  let relies : Nat → I.World → I.World → Prop
    | 0 => R
    | 1 => S
    | _ => fun _ _ => True
  let gives : Nat → I.World → I.World → Prop
    | 0 => S
    | 1 => R
    | _ => fun a b => R a b ∧ S a b
  let ends : Nat → α → I.World → Prop
    | 0 => P
    | 1 => Q
    | _ => fun _ _ => True
  have hrefl : ∀ i a, relies i a a
    | 0, a => hRrefl a
    | 1, a => hSrefl a
    | _ + 2, _ => trivial
  have htrans : ∀ i {a b c}, relies i a b → relies i b c → relies i a c
    | 0, _, _, _ => hRtrans
    | 1, _, _, _ => hStrans
    | _ + 2, _, _, _ => fun _ _ => trivial
  have hcompat : ∀ i j a b, i ≠ j → gives i a b → relies j a b
    | 0, 0, _, _ => fun hne _ => absurd rfl hne
    | 0, 1, _, _ => fun _ h => h
    | 1, 0, _, _ => fun _ h => h
    | 1, 1, _, _ => fun hne _ => absurd rfl hne
    | _ + 2, 0, _, _ => fun _ h => h.1
    | _ + 2, 1, _, _ => fun _ h => h.2
    | _, _ + 2, _, _ => fun _ _ => trivial
  obtain ⟨_, hthreads⟩ := sat_run (Q := ends) (T := fun _ _ => True) hrefl (@htrans) hcompat
    (fun _ => trivial) (fun _ _ => trivial) (fun _ _ _ _ => trivial) _ schedule
    (by
      intro i program hprogram
      match i with
      | 0 => exact Option.some.inj hprogram ▸ hfirst
      | 1 => exact Option.some.inj hprogram ▸ hsecond
      | _ + 2 => simp at hprogram) hmeets
  have hlength := run_length { world := world, threads := [first, second] } schedule
  obtain ⟨final, threads, hfinal⟩ : ∃ final threads,
      run { world := world, threads := [first, second] } schedule =
        { world := final, threads := threads } := ⟨_, _, rfl⟩
  rw [hfinal] at hthreads hdone hlength ⊢
  obtain ⟨first', second', rfl⟩ := List.length_eq_two.mp hlength
  obtain ⟨value, hvalue, hP⟩ := hdone.result (i := 0) hRrefl rfl (hthreads 0 first' rfl)
  obtain ⟨value', hvalue', hQ⟩ := hdone.result (i := 1) hSrefl rfl (hthreads 1 second' rfl)
  have heq : first' = .ret value := Option.some.inj hvalue
  have heq' : second' = .ret value' := Option.some.inj hvalue'
  exact ⟨value, value', by rw [heq, heq'], hP, hQ⟩

end Pool

end Async
