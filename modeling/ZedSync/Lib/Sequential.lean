import ZedSync.Lib.Async

/-!
Programs run alone. `Heeds` says how the outside answers a run, and `Ensures` is
the weakest precondition over every run that is answered so: the rules follow the
program, and `Ensures.run` reads the promise off one run.
-/

namespace Async

namespace Prog

variable {I : Interface} {α β : Type}

/-- Every action of the run is performed, and answered, as `C` allows. -/
def Heeds (C : I.Action → I.Input → I.World → Prop) :
    Prog I α → List I.Input → I.World → Prop
  | .ret _, _, _ => True
  | .call action next, inputs, world =>
      C action (inputs.headD I.noInput) world ∧
        (next (I.perform action (inputs.headD I.noInput) world).1).Heeds C inputs.tail
          (I.perform action (inputs.headD I.noInput) world).2

instance instDecidableHeeds {C : I.Action → I.Input → I.World → Prop}
    [∀ action input world, Decidable (C action input world)] :
    ∀ (program : Prog I α) (inputs : List I.Input) (world : I.World),
      Decidable (program.Heeds C inputs world)
  | .ret _, _, _ => inferInstanceAs (Decidable True)
  | .call action next, inputs, world =>
      have : Decidable ((next (I.perform action (inputs.headD I.noInput) world).1).Heeds C
          inputs.tail (I.perform action (inputs.headD I.noInput) world).2) :=
        instDecidableHeeds _ _ _
      inferInstanceAs (Decidable (_ ∧ _))

/-- A run answered as `C` allows ends with `Q`. -/
def Ensures (C : I.Action → I.Input → I.World → Prop) (Q : α → I.World → Prop) :
    Prog I α → I.World → Prop
  | .ret value, world => Q value world
  | .call action next, world =>
      ∀ input, C action input world →
        (next (I.perform action input world).1).Ensures C Q (I.perform action input world).2

variable {C : I.Action → I.Input → I.World → Prop} {Q : α → I.World → Prop}

theorem Ensures.bind {Q' : β → I.World → Prop} {program : Prog I α} {f : α → Prog I β}
    {world : I.World} (h : program.Ensures C Q world)
    (hf : ∀ value later, Q value later → (f value).Ensures C Q' later) :
    (program >>= f).Ensures C Q' world := by
  induction program generalizing world with
  | ret value => exact hf value world h
  | call action next ih =>
      intro input hinput
      exact ih _ (h input hinput)

theorem Ensures.mono {Q' : α → I.World → Prop} {program : Prog I α} {world : I.World}
    (h : program.Ensures C Q world) (hle : ∀ value later, Q value later → Q' value later) :
    program.Ensures C Q' world := by
  induction program generalizing world with
  | ret value => exact hle value world h
  | call action next ih =>
      intro input hinput
      exact ih _ (h input hinput)

theorem Ensures.and {Q' : α → I.World → Prop} {program : Prog I α} {world : I.World}
    (h : program.Ensures C Q world) (h' : program.Ensures C Q' world) :
    program.Ensures C (fun value later => Q value later ∧ Q' value later) world := by
  induction program generalizing world with
  | ret value => exact ⟨h, h'⟩
  | call action next ih =>
      intro input hinput
      exact ih _ (h input hinput) (h' input hinput)

/-- What every allowed action keeps, the program keeps. -/
theorem Ensures.of_only {allowed : I.Action → Prop} {P : I.World → Prop}
    (hstep : ∀ action input world, allowed action → P world → C action input world →
      P (I.perform action input world).2)
    {program : Prog I α} {world : I.World} (honly : program.Only allowed) (h : P world) :
    program.Ensures C (fun _ => P) world := by
  induction program generalizing world with
  | ret value => exact h
  | call action next ih =>
      intro input hinput
      exact ih _ (honly.2 _) (hstep action input world honly.1 h hinput)

/-- A promise kept by every run is one the program ensures. -/
theorem Ensures.of_runs {program : Prog I α} {world : I.World}
    (h : ∀ inputs, Q (program.run inputs world).1 (program.run inputs world).2) :
    program.Ensures C Q world := by
  induction program generalizing world with
  | ret value => exact h []
  | call action next ih =>
      intro input _
      exact ih _ fun inputs => h (input :: inputs)

/-- Any run heeds a condition that asks nothing. -/
theorem heeds_any (program : Prog I α) (inputs : List I.Input) (world : I.World) :
    program.Heeds (fun _ _ _ => True) inputs world := by
  induction program generalizing inputs world with
  | ret value => trivial
  | call action next ih => exact ⟨trivial, ih _ _ _⟩

/-- The promise holds at the end of a run. -/
theorem Ensures.run {program : Prog I α} {inputs : List I.Input} {world : I.World}
    (h : program.Ensures C Q world) (hheeds : program.Heeds C inputs world) :
    Q (program.run inputs world).1 (program.run inputs world).2 := by
  induction program generalizing inputs world with
  | ret value => exact h
  | call action next ih =>
      obtain ⟨hnow, hrest⟩ := hheeds
      exact ih _ (h _ hnow) hrest

end Prog

end Async
