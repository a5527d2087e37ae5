import ZedSync.Lib.Async

/-!
A debt among threads. A world is clear of it, or has incurred it, or has paid it;
who incurs the debt goes on to an action that pays. Whatever the schedule, when
all threads have finished the world is clear or has paid. This module names no
program.
-/

namespace Async

namespace Prog

variable {I : Interface} {α β : Type}

/-- As long as the answers are among `replies` the program comes to an action
that pays. -/
def Owes (pays : I.Action → Prop) (replies : (action : I.Action) → I.Reply action → Prop) :
    Prog I α → Prop
  | .ret _ => False
  | .call action next =>
      pays action ∨ ∀ reply, replies action reply → (next reply).Owes pays replies

theorem Owes.bind {pays : I.Action → Prop}
    {replies : (action : I.Action) → I.Reply action → Prop} {program : Prog I α}
    (h : program.Owes pays replies) (f : α → Prog I β) : (program >>= f).Owes pays replies := by
  induction program with
  | ret value => exact h.elim
  | call action next ih => exact h.imp_right fun hnext reply hreply => ih reply (hnext reply hreply)

end Prog

/-- A debt, with the actions allowed to the threads and what they keep of a world. -/
structure Debt (I : Interface) where
  allowed : I.Action → Prop
  Inv : I.World → Prop
  Clear : I.World → Prop
  Paid : I.World → Prop
  incurs : I.Action → Prop
  pays : I.Action → Prop
  clearReplies : (action : I.Action) → I.Reply action → Prop
  dueReplies : (action : I.Action) → I.Reply action → Prop
  inv_step : ∀ {action world}, allowed action → Inv world → ∀ input,
    Inv (I.perform action input world).2
  clear_back : ∀ {action world}, allowed action → Inv world → ∀ input,
    Clear (I.perform action input world).2 → Clear world
  clear_reply : ∀ {action world}, Inv world → Clear world → ∀ input,
    clearReplies action (I.perform action input world).1
  clear_step : ∀ {action world}, allowed action → Inv world → Clear world → ¬ incurs action →
    ∀ input, Clear (I.perform action input world).2 ∨ Paid (I.perform action input world).2
  due_reply : ∀ {action world}, Inv world → ¬ Paid world → ∀ input,
    dueReplies action (I.perform action input world).1
  pays_step : ∀ {action world}, allowed action → pays action → Inv world → ∀ input,
    Paid (I.perform action input world).2
  paid_step : ∀ {action world}, allowed action → Inv world → Paid world → ∀ input,
    Paid (I.perform action input world).2

namespace Debt

variable {I : Interface} {α β : Type} (debt : Debt I)

/-- The program owes the debt. -/
def Owed (program : Prog I α) : Prop := program.Owes debt.pays debt.dueReplies

/-- From a clear world on, the program owes the debt once it incurs it. -/
def Careful : Prog I α → Prop
  | .ret _ => True
  | .call action next => ∀ reply, debt.clearReplies action reply →
      (debt.incurs action → debt.Owed (next reply)) ∧ Careful (next reply)

/-- The debt is not lost: where it is incurred and not paid, some thread owes it. -/
def Tracked (pool : Pool I α) : Prop :=
  debt.Clear pool.world ∨ debt.Paid pool.world ∨ ∃ program ∈ pool.threads, debt.Owed program

structure Held (pool : Pool I α) : Prop where
  only : ∀ program ∈ pool.threads, program.Only debt.allowed
  inv : debt.Inv pool.world
  careful : debt.Clear pool.world → ∀ program ∈ pool.threads, debt.Careful program
  tracked : debt.Tracked pool

variable {debt}

theorem careful_of_only {program : Prog I α}
    (h : program.Only fun action => ¬ debt.incurs action) : debt.Careful program := by
  induction program with
  | ret value => trivial
  | call action next ih =>
      exact fun reply _ => ⟨fun hincurs => absurd hincurs h.1, ih reply (h.2 reply)⟩

theorem Careful.bind {program : Prog I α} {f : α → Prog I β} (h : debt.Careful program)
    (hf : ∀ value, debt.Careful (f value)) : debt.Careful (program >>= f) := by
  induction program with
  | ret value => exact hf value
  | call action next ih =>
      intro reply hreply
      obtain ⟨hincurs, hnext⟩ := h reply hreply
      exact ⟨fun hdebt => (hincurs hdebt).bind f, ih reply hnext⟩

section Step

variable {pool : Pool I α} {turn : Pool.Turn I} {action : I.Action}
  {next : I.Reply action → Prog I α}

/-- The pool after the thread of the turn performed its action. -/
abbrev moved (pool : Pool I α) (turn : Pool.Turn I) (action : I.Action)
    (next : I.Reply action → Prog I α) : Pool I α :=
  { world := (I.perform action turn.2 pool.world).2
    threads := pool.threads.set turn.1 (next (I.perform action turn.2 pool.world).1) }

theorem mem_moved (hthread : pool.threads[turn.1]? = some (.call action next)) :
    next (I.perform action turn.2 pool.world).1 ∈ (moved pool turn action next).threads :=
  List.mem_set (List.getElem?_eq_some_iff.mp hthread).1 _

/-- In a clear world the thread that moves may incur the debt, and then owes it. -/
theorem Held.tracked_of_clear (h : debt.Held pool)
    (hthread : pool.threads[turn.1]? = some (.call action next))
    (hclear : debt.Clear pool.world) : debt.Tracked (moved pool turn action next) := by
  have hmem := List.mem_of_getElem? hthread
  by_cases hincurs : debt.incurs action
  · have hcareful := h.careful hclear _ hmem _ (debt.clear_reply h.inv hclear turn.2)
    exact Or.inr (Or.inr ⟨_, mem_moved hthread, hcareful.1 hincurs⟩)
  · rcases debt.clear_step (h.only _ hmem).1 h.inv hclear hincurs turn.2 with hstill | hpaid
    · exact Or.inl hstill
    · exact Or.inr (Or.inl hpaid)

/-- A thread that owes the debt pays it, or goes on owing it. -/
theorem Held.tracked_of_owed (h : debt.Held pool)
    (hthread : pool.threads[turn.1]? = some (.call action next))
    (hunpaid : ¬ debt.Paid pool.world) {program : Prog I α} (hprogram : program ∈ pool.threads)
    (howed : debt.Owed program) : debt.Tracked (moved pool turn action next) := by
  obtain ⟨i, hi⟩ := List.mem_iff_getElem?.mp hprogram
  by_cases hturn : i = turn.1
  · subst hturn
    obtain rfl := Option.some.inj (hi.symm.trans hthread)
    rcases howed with hpays | hnext
    · have hpaid := debt.pays_step (h.only _ hprogram).1 hpays h.inv turn.2
      exact Or.inr (Or.inl hpaid)
    · have hstill := hnext _ (debt.due_reply h.inv hunpaid turn.2)
      exact Or.inr (Or.inr ⟨_, mem_moved hthread, hstill⟩)
  · have hstays : (moved pool turn action next).threads[i]? = some program := by
      rw [List.getElem?_set_ne (Ne.symm hturn)]
      exact hi
    exact Or.inr (Or.inr ⟨program, List.mem_of_getElem? hstays, howed⟩)

theorem Held.step (h : debt.Held pool) (turn : Pool.Turn I) : debt.Held (pool.step turn) := by
  rcases Pool.step_cases pool turn with hidle | ⟨action, next, hthread, hstep⟩
  · rw [hidle]
    exact h
  · have hmem := List.mem_of_getElem? hthread
    obtain ⟨hallowed, honly⟩ := h.only _ hmem
    rw [hstep]
    refine ⟨?_, debt.inv_step hallowed h.inv turn.2, ?_, ?_⟩
    · intro program hprogram
      rcases List.mem_or_eq_of_mem_set hprogram with hold | rfl
      · exact h.only program hold
      · exact honly _
    · intro hclear program hprogram
      have hbefore := debt.clear_back hallowed h.inv turn.2 hclear
      rcases List.mem_or_eq_of_mem_set hprogram with hold | rfl
      · exact h.careful hbefore program hold
      · exact (h.careful hbefore _ hmem _ (debt.clear_reply h.inv hbefore turn.2)).2
    · by_cases hpaid : debt.Paid pool.world
      · exact Or.inr (Or.inl (debt.paid_step hallowed h.inv hpaid turn.2))
      · rcases h.tracked with hclear | hpaid' | ⟨program, hprogram, howed⟩
        · exact h.tracked_of_clear hthread hclear
        · exact absurd hpaid' hpaid
        · exact h.tracked_of_owed hthread hpaid hprogram howed

end Step

theorem Held.run {pool : Pool I α} (h : debt.Held pool) (schedule : List (Pool.Turn I)) :
    debt.Held (pool.run schedule) := by
  induction schedule generalizing pool with
  | nil => exact h
  | cons turn schedule ih => exact ih (h.step turn)

/-- When every thread has finished nobody owes the debt. -/
theorem Held.done {pool : Pool I α} (h : debt.Held pool) (hdone : pool.Done) :
    debt.Clear pool.world ∨ debt.Paid pool.world := by
  rcases h.tracked with hclear | hpaid | ⟨program, hprogram, howed⟩
  · exact Or.inl hclear
  · exact Or.inr hpaid
  · obtain ⟨value, rfl⟩ := Prog.eq_ret_of_finished (hdone program hprogram)
    exact howed.elim

end Debt

end Async
