import ZedSync.Lib.Stages

/-!
What happens between two actions of a thread. An action opens the window of the thread
that performs it, and what any action brings falls into every window. A cell that a
thread read when it opened its window now holds what was read, or what fell in last.
-/

namespace Async

variable {I : Interface} {α ν ε σ : Type}

/-- Which actions open a window, and what an action brings. -/
structure Window (I : Interface) (ε : Type) where
  opens : I.Action → Bool
  brings : I.Action → I.Input → I.World → List ε

/-- What each thread has missed since it opened its window. -/
abbrev Missed (ε : Type) := Nat → List ε

namespace Window

variable (window : Window I ε)

def mark (thread : Nat) (action : I.Action) (input : I.Input) (world : I.World)
    (missed : Missed ε) : Missed ε :=
  fun other =>
    if other = thread ∧ window.opens action = true then []
    else missed other ++ window.brings action input world

variable {window} {thread other : Nat} {action : I.Action} {input : I.Input} {world : I.World}
  {missed : Missed ε}

theorem mark_opens (h : window.opens action = true) :
    window.mark thread action input world missed thread = [] := if_pos ⟨rfl, h⟩

theorem mark_other (h : other ≠ thread) : window.mark thread action input world missed other =
    missed other ++ window.brings action input world := if_neg fun hsame => h hsame.1

theorem mark_stays (h : window.opens action = false) :
    window.mark thread action input world missed other =
      missed other ++ window.brings action input world :=
  if_neg fun hopens => by simp [h] at hopens

/-- What was missed stays missed until the thread opens its window again. -/
theorem mem_mark {entry : ε} (h : entry ∈ missed other)
    (hother : other ≠ thread ∨ window.opens action = false) :
    entry ∈ window.mark thread action input world missed other := by
  have hmark : window.mark thread action input world missed other =
      missed other ++ window.brings action input world := by
    rcases hother with hne | hstays
    · exact mark_other hne
    · exact mark_stays hstays
  rw [hmark]
  exact List.mem_append_left _ h

/-- Nothing is missed but what was, or what the action brings. -/
theorem of_mem_mark {entry : ε}
    (h : entry ∈ window.mark thread action input world missed other) :
    entry ∈ missed other ∨ entry ∈ window.brings action input world := by
  unfold mark at h
  split at h
  · cases h
  · exact List.mem_append.mp h

end Window

/-- The content of a cell, from what a thread read and what it has missed since. -/
def latest (read : ν) (missed : List ν) : ν := missed.getLastD read

theorem latest_eq (read : ν) (missed : List ν) : latest read missed = read ∧ missed = [] ∨
    latest read missed ∈ missed := by
  cases hlast : missed.getLast? with
  | none =>
      rw [List.getLast?_eq_none_iff] at hlast
      subst hlast
      exact Or.inl ⟨rfl, rfl⟩
  | some last =>
      right
      rw [latest, List.getLastD_eq_getLast?, hlast]
      exact List.mem_of_getLast? hlast

/-- What was missed last hides what was read. -/
theorem latest_of_mem {read : ν} {missed : List ν} (h : latest read missed ∈ missed) (other : ν) :
    latest other missed = latest read missed := by
  cases hlast : missed.getLast? with
  | none =>
      rw [List.getLast?_eq_none_iff] at hlast
      subst hlast
      cases h
  | some last => simp [latest, List.getLastD_eq_getLast?, hlast]

section Cell

variable [DecidableEq ν]

/-- The window of a cell: an action that changes it brings its new content. -/
def cellWindow (opens : I.Action → Bool) (content : I.World → ν) : Window I ν where
  opens := opens
  brings action input world :=
    if content (I.perform action input world).2 = content world then []
    else [content (I.perform action input world).2]

variable (opens : I.Action → Bool) (content : I.World → ν) {thread other : Nat}
  {action : I.Action} {input : I.Input} {world : I.World} {missed : Missed ν} {read : ν}

theorem latest_brings (h : content world = latest read (missed other)) :
    content (I.perform action input world).2 =
      latest read (missed other ++ (cellWindow opens content).brings action input world) := by
  unfold cellWindow
  dsimp only
  split
  · rename_i hsame
    rw [hsame, List.append_nil, h]
  · simp [latest]

/-- The rule of the cell: whoever read it keeps its content in sight. -/
theorem latest_mark (h : content world = latest read (missed other))
    (hother : other ≠ thread ∨ opens action = false) :
    content (I.perform action input world).2 =
      latest read ((cellWindow opens content).mark thread action input world missed other) := by
  have hmark : (cellWindow opens content).mark thread action input world missed other =
      missed other ++ (cellWindow opens content).brings action input world := by
    rcases hother with hne | hstays
    · exact Window.mark_other hne
    · exact Window.mark_stays hstays
  rw [hmark]
  exact latest_brings opens content h

end Cell

end Async
