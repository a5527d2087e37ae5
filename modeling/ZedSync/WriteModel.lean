import Mathlib.Data.List.Induction
import ZedSync.WriteLifecycle

/-!
`formal/write_lifecycle.qnt` in full: the life of one coalesced queue slot through
writes, sends, lost connections, answers and conflicts. The model has two writes, under
`FirstKey` and `SecondKey`; here their number is a parameter, and the key of a write is
its generation.
-/

namespace ZedSync.WriteModel

/-- `WriteKey`: `none` is `NoKey`, `some n` the key of the `n`-th write, so that
`FirstKey` is `some 1` and `SecondKey` is `some 2`. -/
abbrev WriteKey := Option Nat

structure State where
  queuedKey : WriteKey
  inFlightKey : WriteKey
  localGeneration : Nat
  inFlightGeneration : Nat
  dirty : Bool
  connected : Bool
  needsRetry : Bool
  lastSettledKey : WriteKey
  lastRetiredKey : WriteKey
  sawLateAck : Bool
  sawRetryAfterDisconnect : Bool
  sawServerConflict : Bool
  sawDuplicateAck : Bool
  deriving DecidableEq, Repr

def init : State :=
  { queuedKey := none, inFlightKey := none, localGeneration := 0, inFlightGeneration := 0,
    dirty := false, connected := true, needsRetry := false, lastSettledKey := none,
    lastRetiredKey := none, sawLateAck := false, sawRetryAfterDisconnect := false,
    sawServerConflict := false, sawDuplicateAck := false }

/-- The disjuncts of `step`. -/
inductive Action where
  | localWrite
  | send
  | disconnect
  | reconnect
  | sendFailure
  | acknowledge
  | duplicateAck
  | serverWinsConflict
  | idle
  deriving DecidableEq, Repr

/-- An action of the model of `bound` writes: the next state where it is enabled. -/
def Action.apply (bound : Nat) (s : State) : Action → Option State
  | .localWrite =>
      if s.localGeneration < bound then
        some { s with
          queuedKey := some (s.localGeneration + 1), localGeneration := s.localGeneration + 1,
          dirty := true }
      else none
  | .send =>
      if s.connected = true ∧ s.queuedKey ≠ none ∧ s.inFlightKey = none then
        some { s with
          inFlightKey := s.queuedKey, inFlightGeneration := s.localGeneration, needsRetry := false,
          sawRetryAfterDisconnect := s.sawRetryAfterDisconnect || s.needsRetry }
      else none
  | .disconnect =>
      if s.connected = true then
        some { s with
          connected := false, needsRetry := s.needsRetry || s.inFlightKey.isSome,
          inFlightKey := none, inFlightGeneration := 0 }
      else none
  | .reconnect => if s.connected = true then none else some { s with connected := true }
  | .sendFailure =>
      if s.inFlightKey ≠ none then
        some { s with inFlightKey := none, inFlightGeneration := 0, needsRetry := true }
      else none
  | .acknowledge =>
      if s.inFlightKey ≠ none then
        some { s with
          queuedKey := if s.queuedKey = s.inFlightKey then none else s.queuedKey
          dirty := if s.queuedKey = s.inFlightKey then false else s.dirty
          inFlightKey := none
          inFlightGeneration := 0
          lastSettledKey := s.inFlightKey
          lastRetiredKey := if s.queuedKey = s.inFlightKey then s.inFlightKey else none
          sawLateAck := s.sawLateAck || s.inFlightGeneration < s.localGeneration }
      else none
  | .duplicateAck =>
      if s.lastSettledKey ≠ none then some { s with sawDuplicateAck := true } else none
  | .serverWinsConflict =>
      if s.queuedKey ≠ none then
        some { s with
          queuedKey := none, inFlightKey := none, inFlightGeneration := 0, dirty := false,
          needsRetry := false, lastSettledKey := none, lastRetiredKey := none,
          sawServerConflict := true }
      else none
  | .idle => some s

/-- The fields that `acknowledge` reads or updates, with a name for the key of each write. -/
def State.view (name : Nat → String) (s : State) : WriteLifecycle.State :=
  { queuedKey := s.queuedKey.map name
    inFlightKey := s.inFlightKey.map name
    localGeneration := s.localGeneration
    inFlightGeneration := s.inFlightGeneration
    dirty := s.dirty
    lastSettledKey := s.lastSettledKey.map name
    lastRetiredKey := s.lastRetiredKey.map name
    sawLateAck := s.sawLateAck }

/-- The `acknowledge` the ports are compared with is this one. -/
theorem acknowledge_view {name : Nat → String} (hname : Function.Injective name) {bound : Nat}
    {before after : State} (h : Action.apply bound before .acknowledge = some after) :
    WriteLifecycle.acknowledge (before.view name) = some (after.view name) := by
  simp only [Action.apply, Option.ite_none_right_eq_some, Option.some.injEq] at h
  obtain ⟨hsome, rfl⟩ := h
  have hkeys : (before.queuedKey.map name = before.inFlightKey.map name) =
      (before.queuedKey = before.inFlightKey) :=
    propext (Option.map_injective hname).eq_iff
  simp only [WriteLifecycle.acknowledge, State.view, Option.map_eq_none_iff, hsome, if_false, hkeys]
  split <;> rfl

/-- Actions one after the other, each enabled. -/
def run (bound : Nat) (s : State) (actions : List Action) : Option State :=
  actions.foldlM (Action.apply bound) s

section Safety

variable (bound : Nat) (s : State)

def generationIsBounded : Prop :=
  s.localGeneration ≤ bound ∧ s.inFlightGeneration ≤ s.localGeneration

def queueMatchesDirty : Prop := s.queuedKey = none ↔ s.dirty = false

def queueKeyMatchesGeneration : Prop :=
  ∀ generation, s.queuedKey = some generation → s.localGeneration = generation

def flightIsWellFormed : Prop :=
  s.inFlightKey = none ∧ s.inFlightGeneration = 0 ∨
    ∃ generation, 1 ≤ generation ∧ s.inFlightKey = some generation ∧
      s.inFlightGeneration = generation

def retryPreservesAQueue : Prop :=
  s.needsRetry = false ∨ (s.queuedKey ≠ none ∧ s.inFlightKey = none)

def retirementRequiresExactKey : Prop :=
  s.lastRetiredKey = none ∨ s.lastRetiredKey = s.lastSettledKey

/-- `write_lifecycle_safety`. -/
structure Safety : Prop where
  generationIsBounded : generationIsBounded bound s
  queueMatchesDirty : queueMatchesDirty s
  queueKeyMatchesGeneration : queueKeyMatchesGeneration s
  flightIsWellFormed : flightIsWellFormed s
  retryPreservesAQueue : retryPreservesAQueue s
  retirementRequiresExactKey : retirementRequiresExactKey s

/-- A request in flight leaves its row a queued write, of its own generation or a later
one; and the queued key is that of a write. -/
structure Inv : Prop extends Safety bound s where
  flightIsQueued : s.inFlightKey ≠ none → s.queuedKey ≠ none
  keyIsIssued : ∀ generation, s.queuedKey = some generation → 1 ≤ generation

end Safety

theorem init_inv (bound : Nat) : Inv bound init := by
  refine ⟨⟨⟨Nat.zero_le _, Nat.zero_le _⟩, ?_, ?_, Or.inl ⟨rfl, rfl⟩, Or.inl rfl, Or.inl rfl⟩, ?_,
    ?_⟩
  · exact ⟨fun _ => rfl, fun _ => rfl⟩
  · exact fun _ h => nomatch h
  · exact fun h => absurd rfl h
  · exact fun _ h => nomatch h

theorem Inv.step {bound : Nat} {before after : State} {action : Action} (hinv : Inv bound before)
    (h : action.apply bound before = some after) : Inv bound after := by
  obtain ⟨⟨⟨hbound, hflightBound⟩, hdirty, hkey, hflight, hretry, hexact⟩, hqueued, hissued⟩ := hinv
  cases action with
  | localWrite =>
      simp only [Action.apply, Option.ite_none_right_eq_some, Option.some.injEq] at h
      obtain ⟨hroom, rfl⟩ := h
      refine ⟨⟨⟨hroom, by simp only; omega⟩, ?_, ?_, hflight, ?_, hexact⟩, ?_, ?_⟩
      · simp [queueMatchesDirty]
      · simp [queueKeyMatchesGeneration]
      · rcases hretry with hnone | ⟨-, hidle⟩
        · exact Or.inl hnone
        · exact Or.inr ⟨nofun, hidle⟩
      · exact fun _ => nofun
      · simp
  | send =>
      simp only [Action.apply, Option.ite_none_right_eq_some, Option.some.injEq] at h
      obtain ⟨⟨-, hsome, hidle⟩, rfl⟩ := h
      obtain ⟨generation, hgeneration⟩ := Option.ne_none_iff_exists'.mp hsome
      have hlocal := hkey generation hgeneration
      refine ⟨⟨⟨hbound, le_rfl⟩, hdirty, hkey, ?_, Or.inl rfl, hexact⟩, fun _ => hsome, hissued⟩
      exact Or.inr ⟨generation, hissued generation hgeneration, hgeneration, hlocal⟩
  | disconnect =>
      simp only [Action.apply, Option.ite_none_right_eq_some, Option.some.injEq] at h
      obtain ⟨-, rfl⟩ := h
      refine ⟨⟨⟨hbound, Nat.zero_le _⟩, hdirty, hkey, Or.inl ⟨rfl, rfl⟩, ?_, hexact⟩,
        (fun h => absurd rfl h), hissued⟩
      by_cases hsome : before.inFlightKey = none
      · rcases hretry with hnone | ⟨hnext, -⟩
        · exact Or.inl (by simp [hnone, hsome])
        · exact Or.inr ⟨hnext, rfl⟩
      · exact Or.inr ⟨hqueued hsome, rfl⟩
  | reconnect =>
      simp only [Action.apply, Option.ite_none_left_eq_some, Option.some.injEq] at h
      obtain ⟨-, rfl⟩ := h
      exact ⟨⟨⟨hbound, hflightBound⟩, hdirty, hkey, hflight, hretry, hexact⟩, hqueued, hissued⟩
  | sendFailure =>
      simp only [Action.apply, Option.ite_none_right_eq_some, Option.some.injEq] at h
      obtain ⟨hsome, rfl⟩ := h
      exact ⟨⟨⟨hbound, Nat.zero_le _⟩, hdirty, hkey, Or.inl ⟨rfl, rfl⟩,
        Or.inr ⟨hqueued hsome, rfl⟩, hexact⟩, (fun h => absurd rfl h), hissued⟩
  | acknowledge =>
      simp only [Action.apply, Option.ite_none_right_eq_some, Option.some.injEq] at h
      obtain ⟨hsome, rfl⟩ := h
      have hcalm : before.needsRetry = false := by
        rcases hretry with hnone | ⟨-, hidle⟩
        · exact hnone
        · exact absurd hidle hsome
      by_cases hsame : before.queuedKey = before.inFlightKey
      · simp only [hsame, if_true]
        exact ⟨⟨⟨hbound, Nat.zero_le _⟩, ⟨fun _ => rfl, fun _ => rfl⟩, (fun _ h => nomatch h),
          Or.inl ⟨rfl, rfl⟩, Or.inl hcalm, Or.inr rfl⟩, (fun h => absurd rfl h),
          (fun _ h => nomatch h)⟩
      · simp only [hsame, if_false]
        exact ⟨⟨⟨hbound, Nat.zero_le _⟩, hdirty, hkey, Or.inl ⟨rfl, rfl⟩, Or.inl hcalm,
          Or.inl rfl⟩, (fun h => absurd rfl h), hissued⟩
  | duplicateAck =>
      simp only [Action.apply, Option.ite_none_right_eq_some, Option.some.injEq] at h
      obtain ⟨-, rfl⟩ := h
      exact ⟨⟨⟨hbound, hflightBound⟩, hdirty, hkey, hflight, hretry, hexact⟩, hqueued, hissued⟩
  | serverWinsConflict =>
      simp only [Action.apply, Option.ite_none_right_eq_some, Option.some.injEq] at h
      obtain ⟨-, rfl⟩ := h
      exact ⟨⟨⟨hbound, Nat.zero_le _⟩, ⟨fun _ => rfl, fun _ => rfl⟩, (fun _ h => nomatch h),
        Or.inl ⟨rfl, rfl⟩, Or.inl rfl, Or.inl rfl⟩, (fun h => absurd rfl h), (fun _ h => nomatch h)⟩
  | idle =>
      obtain rfl := Option.some.inj h
      exact ⟨⟨⟨hbound, hflightBound⟩, hdirty, hkey, hflight, hretry, hexact⟩, hqueued, hissued⟩

theorem run_cons {bound : Nat} {s after : State} {action : Action} {actions : List Action} :
    run bound s (action :: actions) = some after ↔
      ∃ next, action.apply bound s = some next ∧ run bound next actions = some after := by
  simp [run, List.foldlM_cons, Option.bind_eq_some_iff]

theorem run_append {bound : Nat} {s after : State} {first second : List Action} :
    run bound s (first ++ second) = some after ↔
      ∃ middle, run bound s first = some middle ∧ run bound middle second = some after := by
  simp [run, List.foldlM_append, Option.bind_eq_some_iff]

theorem Inv.run {bound : Nat} {before after : State} {actions : List Action}
    (hinv : Inv bound before) (h : run bound before actions = some after) : Inv bound after := by
  induction actions generalizing before with
  | nil => exact Option.some.inj h ▸ hinv
  | cons action actions ih =>
      obtain ⟨next, hnext, hrest⟩ := run_cons.mp h
      exact ih (hinv.step hnext) hrest

/-- In every run of the model, of any number of writes, its safety holds. -/
theorem write_lifecycle_safety {bound : Nat} {after : State} {actions : List Action}
    (h : run bound init actions = some after) : Safety bound after :=
  ((init_inv bound).run h).toSafety

/-- The first write is answered after the second took the slot over. -/
def lateAnswer : List Action := [.localWrite, .send, .localWrite, .acknowledge]

/-- `late_ack_preserves_newest_write`. -/
def lateAnswered : State :=
  { init with
    queuedKey := some 2, localGeneration := 2, dirty := true, lastSettledKey := some 1,
    sawLateAck := true }

theorem run_lateAnswer : run 2 init lateAnswer = some lateAnswered := rfl

theorem late_answer_safe : Safety 2 lateAnswered :=
  write_lifecycle_safety run_lateAnswer

/-- The action takes the slot away: the answer to the queued write, or a conflict. -/
def Clears (s : State) : Action → Prop
  | .acknowledge => s.queuedKey = s.inFlightKey
  | .serverWinsConflict => True
  | _ => False

/-- What an action does to the slot. -/
theorem queuedKey_apply {bound : Nat} {before after : State} {action : Action}
    (h : action.apply bound before = some after) :
    (action = .localWrite ∧ after.queuedKey = some after.localGeneration) ∨
      (action ≠ .localWrite ∧ Clears before action ∧ after.queuedKey = none) ∨
      (action ≠ .localWrite ∧ ¬ Clears before action ∧ after.queuedKey = before.queuedKey ∧
        after.localGeneration = before.localGeneration) := by
  cases action with
  | localWrite =>
      simp only [Action.apply, Option.ite_none_right_eq_some, Option.some.injEq] at h
      obtain ⟨-, rfl⟩ := h
      exact Or.inl ⟨rfl, rfl⟩
  | acknowledge =>
      simp only [Action.apply, Option.ite_none_right_eq_some, Option.some.injEq] at h
      obtain ⟨-, rfl⟩ := h
      refine Or.inr ?_
      by_cases hsame : before.queuedKey = before.inFlightKey
      · exact Or.inl ⟨nofun, hsame, if_pos hsame⟩
      · exact Or.inr ⟨nofun, hsame, if_neg hsame, rfl⟩
  | serverWinsConflict =>
      simp only [Action.apply, Option.ite_none_right_eq_some, Option.some.injEq] at h
      obtain ⟨-, rfl⟩ := h
      exact Or.inr (Or.inl ⟨nofun, trivial, rfl⟩)
  | reconnect =>
      simp only [Action.apply, Option.ite_none_left_eq_some, Option.some.injEq] at h
      obtain ⟨-, rfl⟩ := h
      exact Or.inr (Or.inr ⟨nofun, id, rfl, rfl⟩)
  | idle =>
      obtain rfl := Option.some.inj h
      exact Or.inr (Or.inr ⟨nofun, id, rfl, rfl⟩)
  | send | disconnect | sendFailure | duplicateAck =>
      simp only [Action.apply, Option.ite_none_right_eq_some, Option.some.injEq] at h
      obtain ⟨-, rfl⟩ := h
      exact Or.inr (Or.inr ⟨nofun, id, rfl, rfl⟩)

/-- Since the last write of the run, if it has one, the slot was taken away. -/
def Cleared (bound : Nat) (actions : List Action) : Prop :=
  ∀ first rest, actions = first ++ .localWrite :: rest →
    ∃ before action later middle, rest = before ++ action :: later ∧
      run bound init (first ++ .localWrite :: before) = some middle ∧ Clears middle action

theorem run_snoc {bound : Nat} {s after : State} {actions : List Action} {action : Action} :
    run bound s (actions ++ [action]) = some after ↔
      ∃ middle, run bound s actions = some middle ∧ action.apply bound middle = some after := by
  rw [run_append]
  simp [run]

/-- Where the last action is no write, the decomposition at a write ends before it. -/
theorem write_before_last {actions first rest : List Action} {action : Action}
    (hother : action ≠ .localWrite) (h : actions ++ [action] = first ++ .localWrite :: rest) :
    ∃ before, rest = before ++ [action] ∧ actions = first ++ .localWrite :: before := by
  rcases List.eq_nil_or_concat' rest with rfl | ⟨before, last, rfl⟩
  · obtain ⟨-, hlast⟩ := List.append_inj' h rfl
    exact absurd (List.cons.inj hlast).1 hother
  · rw [← List.cons_append, ← List.append_assoc] at h
    obtain ⟨hactions, hlast⟩ := List.append_inj' h rfl
    obtain rfl := (List.cons.inj hlast).1
    exact ⟨before, rfl, hactions⟩

/-- No write is lost: at the end of a run the slot is empty exactly when the last write
was answered, or fell to a conflict, after it was made. -/
theorem slot_empty_iff {bound : Nat} {after : State} {actions : List Action}
    (h : run bound init actions = some after) :
    after.queuedKey = none ↔ Cleared bound actions := by
  induction actions using List.reverseRecOn generalizing after with
  | nil =>
      obtain rfl := Option.some.inj h
      refine ⟨fun _ first rest hsplit => ?_, fun _ => rfl⟩
      simp at hsplit
  | append_singleton actions action ih =>
      obtain ⟨middle, hmiddle, haction⟩ := run_snoc.mp h
      rcases queuedKey_apply haction with ⟨rfl, hwritten⟩ | ⟨hother, hclears, hempty⟩ |
        ⟨hother, hkeeps, hsame, -⟩
      · rw [hwritten]
        refine ⟨nofun, fun hcleared => ?_⟩
        obtain ⟨before, action, later, -, hrest, -⟩ := hcleared actions [] rfl
        simp at hrest
      · refine ⟨fun _ first rest hsplit => ?_, fun _ => hempty⟩
        obtain ⟨before, rfl, rfl⟩ := write_before_last hother hsplit
        exact ⟨before, action, [], middle, rfl, hmiddle, hclears⟩
      · rw [hsame, ih hmiddle]
        constructor
        · intro hcleared first rest hsplit
          obtain ⟨before, rfl, rfl⟩ := write_before_last hother hsplit
          obtain ⟨earlier, clearing, later, state, rfl, hstate, hclears⟩ :=
            hcleared first before rfl
          exact ⟨earlier, clearing, later ++ [action], state, by simp, hstate, hclears⟩
        · intro hcleared first rest hsplit
          subst hsplit
          obtain ⟨earlier, clearing, later, state, hrest, hstate, hclears⟩ :=
            hcleared first (rest ++ [action]) (by simp)
          rcases List.eq_nil_or_concat' later with rfl | ⟨before, last, rfl⟩
          · obtain ⟨rfl, hlast⟩ := List.append_inj' hrest rfl
            obtain rfl := (List.cons.inj hlast).1
            rw [hmiddle] at hstate
            obtain rfl := Option.some.inj hstate
            exact absurd hclears hkeeps
          · rw [← List.cons_append, ← List.append_assoc] at hrest
            obtain ⟨rfl, -⟩ := List.append_inj' hrest rfl
            exact ⟨earlier, clearing, before, state, rfl, hstate, hclears⟩

theorem late_answer_keeps_slot : lateAnswered.queuedKey = none ↔ Cleared 2 lateAnswer :=
  slot_empty_iff run_lateAnswer

end ZedSync.WriteModel
