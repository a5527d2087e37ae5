import ZedSync.Lib.Async

/-!
Programs that go through stages, and threads that know something at each. That a
program follows its stages, whatever the replies are, is a matter of its text and
is checked once. What is known at a stage is shown action by action: an action
keeps what its own thread and all others know, and so does every schedule. Beside
the world a run writes a history, which no program can read.
-/

namespace Async

variable {I : Interface} {α β σ γ : Type}

/-- The stages an action and its reply lead to. An action that leads to none is not
performed at that stage. -/
abbrev Stages (I : Interface) (σ : Type) :=
  σ → (action : I.Action) → I.Reply action → σ → Prop

namespace Prog

/-- Whatever the replies, every action leads on from the stage reached, and the
result is one that `E` admits at the last stage. -/
def Follows (next : Stages I σ) (E : α → σ → Prop) : Prog I α → σ → Prop
  | .ret value, stage => E value stage
  | .call action rest, stage =>
      ∀ reply, ∃ after, next stage action reply after ∧ (rest reply).Follows next E after

variable {next : Stages I σ} {E : α → σ → Prop}

theorem Follows.bind {E' : β → σ → Prop} {program : Prog I α} {f : α → Prog I β} {stage : σ}
    (h : program.Follows next E stage)
    (hf : ∀ value after, E value after → (f value).Follows next E' after) :
    (program >>= f).Follows next E' stage := by
  induction program generalizing stage with
  | ret value => exact hf value stage h
  | call action rest ih =>
      intro reply
      obtain ⟨after, hnext, hrest⟩ := h reply
      exact ⟨after, hnext, ih reply hrest⟩

theorem Follows.mono {E' : α → σ → Prop} {program : Prog I α} {stage : σ}
    (h : program.Follows next E stage) (hE : ∀ value after, E value after → E' value after) :
    program.Follows next E' stage := by
  induction program generalizing stage with
  | ret value => exact hE value stage h
  | call action rest ih =>
      intro reply
      obtain ⟨after, hnext, hrest⟩ := h reply
      exact ⟨after, hnext, ih reply hrest⟩

/-- The stages may be read as those of a larger system. -/
theorem Follows.embed {τ : Type} {next' : Stages I τ} {E' : α → τ → Prop} (f : σ → τ)
    (hnext : ∀ {stage action reply after}, next stage action reply after →
      next' (f stage) action reply (f after))
    (hE : ∀ value stage, E value stage → E' value (f stage))
    {program : Prog I α} {stage : σ} (h : program.Follows next E stage) :
    program.Follows next' E' (f stage) := by
  induction program generalizing stage with
  | ret value => exact hE value stage h
  | call action rest ih =>
      intro reply
      obtain ⟨after, hfirst, hrest⟩ := h reply
      exact ⟨f after, hnext hfirst, ih reply hrest⟩

/-- The actions allowed keep the stage among those that satisfy `P`. -/
theorem Follows.of_only {allowed : I.Action → Prop} {P : σ → Prop}
    (hstays : ∀ stage action reply, P stage → allowed action →
      ∃ after, next stage action reply after ∧ P after)
    {program : Prog I α} {stage : σ} (honly : program.Only allowed) (h : P stage) :
    program.Follows next (fun _ => P) stage := by
  induction program generalizing stage with
  | ret value => exact h
  | call action rest ih =>
      intro reply
      obtain ⟨after, hnext, hafter⟩ := hstays stage action reply h honly.1
      exact ⟨after, hnext, ih reply (honly.2 reply) hafter⟩

end Prog

/-- A world and its history after an action of a thread. -/
abbrev moved (mark : Nat → I.Action → I.Input → I.World → γ → γ) (thread : Nat)
    (action : I.Action) (input : I.Input) (state : I.World × γ) : I.World × γ :=
  ((I.perform action input state.1).2, mark thread action input state.1 state.2)

/-- What threads know at their stages, kept by every action that `C` admits at the history
so far: by the thread that performs it, and by the others. -/
structure Upkeep (I : Interface) (σ γ : Type)
    (C : γ → Nat → I.Action → I.Input → I.World → Prop) where
  next : Stages I σ
  mark : Nat → I.Action → I.Input → I.World → γ → γ
  Inv : I.World × γ → Prop
  Knows : Nat → σ → I.World × γ → Prop
  own : ∀ {thread stage action input state after}, Inv state → Knows thread stage state →
    C state.2 thread action input state.1 →
    next stage action (I.perform action input state.1).1 after →
    Inv (moved mark thread action input state) ∧
      Knows thread after (moved mark thread action input state)
  others : ∀ {thread stage action input state after}, Inv state → Knows thread stage state →
    C state.2 thread action input state.1 →
    next stage action (I.perform action input state.1).1 after →
    ∀ {other} {seen : σ}, other ≠ thread → Knows other seen state →
      Knows other seen (moved mark thread action input state)

namespace Pool

/-- The history a run writes. -/
def marked (mark : Nat → I.Action → I.Input → I.World → γ → γ) :
    Pool I α → List (Turn I) → γ → γ
  | _, [], history => history
  | pool, turn :: schedule, history =>
      marked mark (pool.step turn) schedule
        (match pool.threads[turn.1]? with
        | some (.call action _) => mark turn.1 action turn.2 pool.world history
        | _ => history)

/-- A part of a history that is marked by itself. -/
theorem marked_part {γ' : Type} {mark : Nat → I.Action → I.Input → I.World → γ → γ}
    {mark' : Nat → I.Action → I.Input → I.World → γ' → γ'} (part : γ → γ')
    (hpart : ∀ thread action input world history,
      part (mark thread action input world history) =
        mark' thread action input world (part history))
    (pool : Pool I α) (schedule : List (Turn I)) (history : γ) :
    part (pool.marked mark schedule history) = pool.marked mark' schedule (part history) := by
  induction schedule generalizing pool history with
  | nil => rfl
  | cons turn schedule ih =>
      simp only [marked]
      rw [ih]
      congr 1
      split
      · exact hpart _ _ _ _ _
      · rfl

/-- A run together with its history. -/
def watch (mark : Nat → I.Action → I.Input → I.World → γ → γ) (state : Pool I α × γ)
    (turn : Turn I) : Pool I α × γ :=
  (state.1.step turn,
    match state.1.threads[turn.1]? with
    | some (.call action _) => mark turn.1 action turn.2 state.1.world state.2
    | _ => state.2)

/-- Every action of the run is performed, at the history it then has, as `C` allows. -/
def Watched (mark : Nat → I.Action → I.Input → I.World → γ → γ)
    (C : γ → Nat → I.Action → I.Input → I.World → Prop) (pool : Pool I α)
    (schedule : List (Turn I)) (history : γ) : Prop :=
  Run.Along (watch mark) (fun state turn => Takes (C state.2 turn.1) state.1 turn)
    (pool, history) schedule

instance {mark : Nat → I.Action → I.Input → I.World → γ → γ}
    {C : γ → Nat → I.Action → I.Input → I.World → Prop}
    [∀ history thread action input world, Decidable (C history thread action input world)]
    (pool : Pool I α) (schedule : List (Turn I)) (history : γ) :
    Decidable (pool.Watched mark C schedule history) :=
  inferInstanceAs (Decidable (Run.Along (watch mark) _ (pool, history) schedule))

/-- A condition that asks nothing. -/
theorem watched_any (mark : Nat → I.Action → I.Input → I.World → γ → γ) (pool : Pool I α)
    (schedule : List (Turn I)) (history : γ) :
    pool.Watched mark (fun _ _ _ _ _ => True) schedule history := by
  induction schedule generalizing pool history with
  | nil => trivial
  | cons turn schedule ih => exact ⟨fun _ _ _ => trivial, ih _ _⟩

/-- A condition that looks at no history. -/
theorem watched_iff_along (mark : Nat → I.Action → I.Input → I.World → γ → γ)
    (C : Nat → I.Action → I.Input → I.World → Prop) (pool : Pool I α)
    (schedule : List (Turn I)) (history : γ) :
    pool.Watched mark (fun _ => C) schedule history ↔
      pool.Along (fun pool turn => Takes (C turn.1) pool turn) schedule := by
  induction schedule generalizing pool history with
  | nil => exact Iff.rfl
  | cons turn schedule ih => exact and_congr_right fun _ => ih _ _

theorem Watched.mono {mark : Nat → I.Action → I.Input → I.World → γ → γ}
    {C D : γ → Nat → I.Action → I.Input → I.World → Prop} {pool : Pool I α}
    {schedule : List (Turn I)} {history : γ} (h : pool.Watched mark C schedule history)
    (himp : ∀ history thread action input world,
      C history thread action input world → D history thread action input world) :
    pool.Watched mark D schedule history :=
  Run.Along.mono (fun _ _ htakes action rest hthread =>
    himp _ _ _ _ _ (htakes action rest hthread)) h

/-- A condition that looks at a part of the history. -/
theorem watched_part {γ' : Type} {mark : Nat → I.Action → I.Input → I.World → γ → γ}
    {mark' : Nat → I.Action → I.Input → I.World → γ' → γ'} (part : γ → γ')
    (hpart : ∀ thread action input world history,
      part (mark thread action input world history) =
        mark' thread action input world (part history))
    (C : γ' → Nat → I.Action → I.Input → I.World → Prop) (pool : Pool I α)
    (schedule : List (Turn I)) (history : γ) :
    pool.Watched mark (fun history => C (part history)) schedule history ↔
      pool.Watched mark' C schedule (part history) := by
  induction schedule generalizing pool history with
  | nil => exact Iff.rfl
  | cons turn schedule ih =>
      refine and_congr_right fun _ => (ih (pool.step turn) _).trans ?_
      unfold Watched watch
      dsimp only
      cases pool.threads[turn.1]? with
      | none => exact Iff.rfl
      | some program =>
          cases program with
          | ret value => exact Iff.rfl
          | call action rest => rw [hpart]

theorem Heeds.watched {C : I.Action → I.Input → I.World → Prop} {pool : Pool I α}
    {schedule : List (Turn I)} (h : pool.Heeds C schedule)
    (mark : Nat → I.Action → I.Input → I.World → γ → γ) (history : γ) :
    pool.Watched mark (fun _ _ => C) schedule history :=
  (watched_iff_along mark (fun _ => C) pool schedule history).mpr h

theorem Heeds.and {C D : I.Action → I.Input → I.World → Prop} {pool : Pool I α}
    {schedule : List (Turn I)} (hC : pool.Heeds C schedule) (hD : pool.Heeds D schedule) :
    pool.Heeds (fun action input world => C action input world ∧ D action input world)
      schedule := by
  induction schedule generalizing pool with
  | nil => trivial
  | cons turn schedule ih =>
      exact ⟨fun action rest hthread => ⟨hC.1 action rest hthread, hD.1 action rest hthread⟩,
        ih hC.2 hD.2⟩

/-- Every thread follows its stages, and knows what it should at the stage reached. -/
structure Kept {C : γ → Nat → I.Action → I.Input → I.World → Prop} (upkeep : Upkeep I σ γ C)
    (pool : Pool I α) (history : γ) : Prop where
  inv : upkeep.Inv (pool.world, history)
  threads : ∀ (i : Nat) (program : Prog I α), pool.threads[i]? = some program →
    ∃ stage, program.Follows upkeep.next (fun _ _ => True) stage ∧
      upkeep.Knows i stage (pool.world, history)

section Kept

variable {C : γ → Nat → I.Action → I.Input → I.World → Prop} {upkeep : Upkeep I σ γ C}
  {pool : Pool I α} {history : γ} {schedule : List (Turn I)}

/-- One turn of any thread. -/
theorem Kept.step (h : Kept upkeep pool history) {turn : Turn I}
    (htakes : Takes (C history turn.1) pool turn) :
    Kept upkeep (watch upkeep.mark (pool, history) turn).1
      (watch upkeep.mark (pool, history) turn).2 := by
  unfold watch
  dsimp only
  rcases hthread : pool.threads[turn.1]? with _ | program
  · rw [step_idle fun _ _ hcall => by simp [hthread] at hcall]
    exact h
  · cases program with
    | ret value =>
        rw [step_idle fun _ _ hcall => by simp [hthread] at hcall]
        exact h
    | call action rest =>
        obtain ⟨stage, hfollows, hknows⟩ := h.threads turn.1 _ hthread
        obtain ⟨after, hnext, hrest⟩ := hfollows (I.perform action turn.2 pool.world).1
        have hmeets := htakes action rest hthread
        obtain ⟨hinv, hmine⟩ := upkeep.own h.inv hknows hmeets hnext
        rw [step_call hthread]
        refine ⟨hinv, fun i program hprogram => ?_⟩
        rcases getElem?_set_some hthread hprogram with ⟨rfl, rfl⟩ | ⟨hne, hother⟩
        · exact ⟨after, hrest, hmine⟩
        · obtain ⟨seen, hseen, hknown⟩ := h.threads i program hother
          exact ⟨seen, hseen, upkeep.others h.inv hknows hmeets hnext hne hknown⟩

/-- What holds at the start of a run holds, with its history, at the end. -/
theorem Kept.run (h : Kept upkeep pool history)
    (hwatched : pool.Watched upkeep.mark C schedule history) :
    Kept upkeep (pool.run schedule) (pool.marked upkeep.mark schedule history) := by
  induction schedule generalizing pool history with
  | nil => exact h
  | cons turn schedule ih => exact ih (h.step hwatched.1) hwatched.2

/-- Two conditions on the actions of a run that agree wherever threads know what they
should hold along the same runs. -/
theorem Kept.watched_iff {P Q : γ → Nat → I.Action → I.Input → I.World → Prop}
    (hadmits : ∀ history thread action input world,
      Q history thread action input world → C history thread action input world)
    (hiff : ∀ {thread stage action input world history after},
      upkeep.Inv (world, history) → upkeep.Knows thread stage (world, history) →
      upkeep.next stage action (I.perform action input world).1 after →
      (P history thread action input world ↔ Q history thread action input world))
    (h : Kept upkeep pool history) :
    pool.Watched upkeep.mark P schedule history ↔
      pool.Watched upkeep.mark Q schedule history := by
  refine Run.along_iff_of_kept (J := fun state => Kept upkeep state.1 state.2) ?_ ?_ schedule h
  · intro state turn hkept htakes
    exact hkept.step fun action rest hthread => hadmits _ _ _ _ _ (htakes action rest hthread)
  · intro state turn hkept
    refine forall_congr' fun action => forall_congr' fun rest => forall_congr' fun hthread => ?_
    obtain ⟨stage, hfollows, hknows⟩ := hkept.threads turn.1 _ hthread
    obtain ⟨after, hnext, -⟩ := hfollows (I.perform action turn.2 state.1.world).1
    exact hiff hkept.inv hknows hnext

/-- What follows from the condition where threads know what they should holds of every
action. -/
theorem Kept.along {D : Nat → I.Action → I.Input → I.World → Prop}
    (hD : ∀ {thread stage action input world history after},
      upkeep.Inv (world, history) → upkeep.Knows thread stage (world, history) →
      C history thread action input world →
      upkeep.next stage action (I.perform action input world).1 after →
      D thread action input world)
    (h : Kept upkeep pool history) (hwatched : pool.Watched upkeep.mark C schedule history) :
    pool.Along (fun pool turn => Takes (D turn.1) pool turn) schedule := by
  induction schedule generalizing pool history with
  | nil => trivial
  | cons turn schedule ih =>
      refine ⟨fun action rest hthread => ?_, ih (h.step hwatched.1) hwatched.2⟩
      obtain ⟨stage, hfollows, hknows⟩ := h.threads turn.1 _ hthread
      obtain ⟨after, hnext, -⟩ := hfollows (I.perform action turn.2 pool.world).1
      exact hD h.inv hknows (hwatched.1 action rest hthread) hnext

/-- The same, where it does not matter which thread performs the action. -/
theorem Kept.heeds {D : I.Action → I.Input → I.World → Prop}
    (hD : ∀ {thread stage action input world history after},
      upkeep.Inv (world, history) → upkeep.Knows thread stage (world, history) →
      C history thread action input world →
      upkeep.next stage action (I.perform action input world).1 after → D action input world)
    (h : Kept upkeep pool history) (hwatched : pool.Watched upkeep.mark C schedule history) :
    pool.Heeds D schedule :=
  h.along (D := fun _ => D) hD hwatched

end Kept

end Pool

end Async
