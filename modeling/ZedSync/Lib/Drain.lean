import Mathlib.Data.List.Nodup
import ZedSync.Lib.Run

/-!
A queue that is sent in rounds. A round offers its items in order and ends at the
first that is not answered; an answered item leaves the queue, unless its answer
makes it stay. Over the rounds of a run an item that left is never offered again,
and the queue is what no answer took.
-/

namespace Drain

variable {α β σ ε : Type}

/-- What one round offers, each item with its answer. -/
def attempts : List α → (Nat → Option β) → List (α × Option β)
  | [], _ => []
  | item :: rest, answers =>
      match answers 0 with
      | none => [(item, none)]
      | some answer => (item, some answer) :: attempts rest fun i => answers (i + 1)

section Stays

variable (stays : α → β → Prop)

/-- The attempt takes its item out of the queue. -/
def Settles (attempt : α × Option β) : Prop :=
  ∃ answer, attempt.2 = some answer ∧ ¬ stays attempt.1 answer

/-- What one round leaves queued. -/
def left [∀ item answer, Decidable (stays item answer)] : List α → (Nat → Option β) → List α
  | [], _ => []
  | item :: rest, answers =>
      match answers 0 with
      | none => item :: rest
      | some answer =>
          let later := left rest fun i => answers (i + 1)
          if stays item answer then item :: later else later

/-- What a round may do to a queue, by the attempts it made. -/
structure Round (before : List α) (made : List (α × Option β)) (after : List α) : Prop where
  inOrder : made.map Prod.fst <+: before
  ends : ∀ earlier attempt later, made = earlier ++ attempt :: later → later ≠ [] →
    attempt.2.isSome = true
  kept : after.Sublist before
  taken : ∀ item, item ∈ after ↔
    item ∈ before ∧ ∀ attempt ∈ made, attempt.1 = item → ¬ Settles stays attempt

theorem not_settles_none (item : α) : ¬ Settles stays (item, none) := by
  rintro ⟨answer, hanswer, -⟩
  cases hanswer

theorem settles_some_iff (item : α) (answer : β) :
    Settles stays (item, some answer) ↔ ¬ stays item answer := by
  constructor
  · rintro ⟨other, hother, hgoes⟩
    obtain rfl := Option.some.inj hother
    exact hgoes
  · exact fun hgoes => ⟨answer, rfl, hgoes⟩

/-- A round that offers nothing. -/
theorem Round.idle (queue : List α) : Round stays queue [] queue :=
  ⟨⟨queue, rfl⟩, by simp, List.Sublist.refl _, by simp⟩

theorem attempts_inOrder (queue : List α) (answers : Nat → Option β) :
    (attempts queue answers).map Prod.fst <+: queue := by
  induction queue generalizing answers with
  | nil => exact ⟨[], rfl⟩
  | cons item rest ih =>
      unfold attempts
      cases answers 0 with
      | none => exact ⟨rest, rfl⟩
      | some answer =>
          obtain ⟨behind, hbehind⟩ := ih fun i => answers (i + 1)
          exact ⟨behind, congrArg (item :: ·) hbehind⟩

theorem attempts_ends (queue : List α) (answers : Nat → Option β)
    {earlier later : List (α × Option β)} {attempt : α × Option β}
    (h : attempts queue answers = earlier ++ attempt :: later) (hlater : later ≠ []) :
    attempt.2.isSome = true := by
  induction queue generalizing answers earlier with
  | nil => simp [attempts] at h
  | cons item rest ih =>
      unfold attempts at h
      cases hanswer : answers 0 with
      | none =>
          simp only [hanswer] at h
          cases earlier with
          | nil => exact absurd (List.cons.inj h).2.symm hlater
          | cons first earlier => simp at h
      | some answer =>
          simp only [hanswer] at h
          cases earlier with
          | nil =>
              obtain rfl := (List.cons.inj h).1
              rfl
          | cons first earlier => exact ih _ (List.cons.inj h).2

/-- Only an unanswered item ends a round early. -/
theorem attempts_all {queue : List α} {answers : Nat → Option β}
    (h : ∀ attempt ∈ attempts queue answers, attempt.2.isSome = true) :
    (attempts queue answers).map Prod.fst = queue := by
  induction queue generalizing answers with
  | nil => rfl
  | cons item rest ih =>
      unfold attempts at h ⊢
      cases hanswer : answers 0 with
      | none => simp [hanswer] at h
      | some answer =>
          simp only [hanswer, List.mem_cons, forall_eq_or_imp] at h
          exact congrArg (item :: ·) (ih h.2)

variable [∀ item answer, Decidable (stays item answer)]

theorem left_sublist (queue : List α) (answers : Nat → Option β) :
    (left stays queue answers).Sublist queue := by
  induction queue generalizing answers with
  | nil => exact List.Sublist.refl _
  | cons item rest ih =>
      unfold left
      cases answers 0 with
      | none => exact List.Sublist.refl _
      | some answer =>
          dsimp only
          split
          · exact (ih _).cons_cons item
          · exact (ih _).cons item

theorem mem_left_iff {queue : List α} (hdistinct : queue.Nodup) (answers : Nat → Option β)
    (item : α) : item ∈ left stays queue answers ↔
      item ∈ queue ∧ ∀ attempt ∈ attempts queue answers, attempt.1 = item →
        ¬ Settles stays attempt := by
  induction queue generalizing answers with
  | nil => simp [left]
  | cons first rest ih =>
      obtain ⟨hfirst, hrest⟩ := List.nodup_cons.mp hdistinct
      unfold left attempts
      cases answers 0 with
      | none =>
          simp only [List.mem_singleton, forall_eq]
          exact ⟨fun hmem => ⟨hmem, fun _ => not_settles_none stays first⟩, And.left⟩
      | some answer =>
          have hlater := ih hrest fun i => answers (i + 1)
          have hnot : first ∉ left stays rest fun i => answers (i + 1) :=
            fun hmem => hfirst ((left_sublist stays rest _).subset hmem)
          simp only [List.mem_cons, forall_eq_or_imp, settles_some_iff]
          by_cases hitem : item = first
          · subst hitem
            have hothers : ∀ attempt ∈ attempts rest fun i => answers (i + 1),
                attempt.1 ≠ item := by
              rintro attempt hattempt rfl
              have hmem := (attempts_inOrder rest fun i => answers (i + 1)).subset
                (List.mem_map_of_mem (f := Prod.fst) hattempt)
              exact hfirst hmem
            split
            · rename_i hstays
              simp only [List.mem_cons, true_or, true_and, not_not, true_iff]
              exact ⟨fun _ => hstays, fun attempt hattempt heq =>
                absurd heq (hothers attempt hattempt)⟩
            · rename_i hgoes
              exact ⟨fun hmem => absurd hmem hnot, fun hkept => absurd hgoes (hkept.2.1 rfl)⟩
          · have hne : ¬ first = item := fun heq => hitem heq.symm
            split
            · simp only [List.mem_cons, hitem, false_or, hlater, hne, false_implies, true_and]
            · simp only [hitem, false_or, hlater, hne, false_implies, true_and]

/-- A round answered by `answers`. -/
theorem round_left {queue : List α} (hdistinct : queue.Nodup) (answers : Nat → Option β) :
    Round stays queue (attempts queue answers) (left stays queue answers) :=
  ⟨attempts_inOrder queue answers, fun _ _ _ h => attempts_ends queue answers h,
    left_sublist stays queue answers, mem_left_iff stays hdistinct answers⟩

end Stays

section Rounds

variable {stays : α → β → Prop} {step : σ → ε → σ} {queue : σ → List α}
  {made : σ → ε → List (α × Option β)}

/-- All attempts of the rounds of a run. -/
def log (step : σ → ε → σ) (made : σ → ε → List (α × Option β)) :
    σ → List ε → List (α × Option β)
  | _, [] => []
  | state, event :: events => made state event ++ log step made (step state event) events

/-- Every event of the run is a round on the queue of its state. -/
abbrev Rounds (stays : α → β → Prop) (step : σ → ε → σ) (queue : σ → List α)
    (made : σ → ε → List (α × Option β)) : σ → List ε → Prop :=
  Run.Along step fun state event =>
    Round stays (queue state) (made state event) (queue (step state event))

/-- Only items of the queue are offered. -/
theorem Rounds.mem_of_log {state : σ} {events : List ε}
    (h : Rounds stays step queue made state events) {attempt : α × Option β}
    (hattempt : attempt ∈ log step made state events) : attempt.1 ∈ queue state := by
  induction events generalizing state with
  | nil => cases hattempt
  | cons event events ih =>
      rcases List.mem_append.mp hattempt with hnow | hlater
      · exact h.1.inOrder.subset (List.mem_map_of_mem hnow)
      · exact h.1.kept.subset (ih h.2 hlater)

/-- What is queued at the end is what no attempt took. -/
theorem Rounds.mem_final_iff {state : σ} {events : List ε}
    (h : Rounds stays step queue made state events) (item : α) :
    item ∈ queue (Run.final step state events) ↔
      item ∈ queue state ∧ ∀ attempt ∈ log step made state events, attempt.1 = item →
        ¬ Settles stays attempt := by
  induction events generalizing state with
  | nil => simp [log]
  | cons event events ih =>
      rw [Run.final_cons, ih h.2, h.1.taken]
      simp only [log, List.mem_append]
      constructor
      · rintro ⟨⟨hmem, hnow⟩, hlater⟩
        exact ⟨hmem, fun attempt hattempt => hattempt.elim (hnow attempt) (hlater attempt)⟩
      · rintro ⟨hmem, hall⟩
        exact ⟨⟨hmem, fun attempt hnow => hall attempt (Or.inl hnow)⟩,
          fun attempt hlater => hall attempt (Or.inr hlater)⟩

/-- After the attempt that takes an item, the item is never offered again. -/
theorem Rounds.never_again {state : σ} {events : List ε}
    (h : Rounds stays step queue made state events) (hdistinct : (queue state).Nodup) :
    (log step made state events).Pairwise fun earlier later =>
      Settles stays earlier → later.1 ≠ earlier.1 := by
  induction events generalizing state with
  | nil => exact List.Pairwise.nil
  | cons event events ih =>
      obtain ⟨hround, hrest⟩ := h
      refine List.pairwise_append.mpr ⟨?_, ih hrest (hdistinct.sublist hround.kept), ?_⟩
      · have hitems : ((made state event).map Prod.fst).Nodup :=
          hdistinct.sublist hround.inOrder.sublist
        exact (List.pairwise_map.mp hitems).imp fun hne _ heq => hne heq.symm
      · intro earlier hearlier later hlater hsettles heq
        have hqueued := Rounds.mem_of_log hrest hlater
        exact ((hround.taken later.1).mp hqueued).2 earlier hearlier heq.symm hsettles

/-- Once every item was taken, the queue is empty. -/
theorem Rounds.drained {state : σ} {events : List ε}
    (h : Rounds stays step queue made state events)
    (hall : ∀ item ∈ queue state, ∃ attempt ∈ log step made state events,
      attempt.1 = item ∧ Settles stays attempt) :
    queue (Run.final step state events) = [] := by
  apply List.eq_nil_iff_forall_not_mem.mpr
  intro item hitem
  obtain ⟨hmem, hnot⟩ := (h.mem_final_iff item).mp hitem
  obtain ⟨attempt, hattempt, heq, hsettles⟩ := hall item hmem
  exact hnot attempt hattempt heq hsettles

end Rounds

end Drain
