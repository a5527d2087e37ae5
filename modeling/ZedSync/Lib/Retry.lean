import ZedSync.Lib.Run

/-!
One item that a system sends in every round until an answer settles it. The
rounds of a run are all answered alike: an answer that settles the item ends the
sending, and one that does not leaves the system as it was, so that the item is
sent in every round.
-/

namespace Retry

variable {σ ε κ : Type} {step : σ → ε → σ}

/-- A system whose answered rounds send the item while it waits, and send nothing
once it is idle. -/
structure Sender (step : σ → ε → σ) (sent : σ → List κ) (item : κ) (answered : ε → Prop)
    (settles : Prop) where
  waiting : σ → Prop
  idle : σ → Prop
  send : ∀ {state round}, waiting state → answered round →
    sent (step state round) = sent state ++ [item]
  settled : ∀ {state round}, waiting state → answered round → settles → idle (step state round)
  kept : ∀ {state round}, waiting state → answered round → ¬ settles →
    waiting (step state round)
  rest : ∀ {state round}, idle state → step state round = state

namespace Sender

variable {sent : σ → List κ} {item : κ} {answered : ε → Prop} {settles : Prop}
  (sender : Sender step sent item answered settles)
include sender

theorem final_idle {state : σ} (h : sender.idle state) (rounds : List ε) :
    Run.final step state rounds = state := by
  induction rounds with
  | nil => rfl
  | cons round rounds ih =>
      rw [Run.final_cons, sender.rest h]
      exact ih

/-- An item that no answer settles is sent in every round. -/
theorem sent_always {state : σ} (h : sender.waiting state) (hsettles : ¬ settles)
    {rounds : List ε} (hanswered : ∀ round ∈ rounds, answered round) :
    sent (Run.final step state rounds) = sent state ++ List.replicate rounds.length item := by
  induction rounds generalizing state with
  | nil => simp
  | cons round rounds ih =>
      have hround := hanswered round List.mem_cons_self
      have hrest : ∀ later ∈ rounds, answered later :=
        fun later hlater => hanswered later (List.mem_cons_of_mem _ hlater)
      rw [Run.final_cons, ih (sender.kept h hround hsettles) hrest, sender.send h hround]
      simp [List.replicate_succ]

/-- An item that the first answer settles is sent in that round only. -/
theorem sent_first {state : σ} (h : sender.waiting state) (hsettles : settles) {round : ε}
    (hanswered : answered round) (rounds : List ε) :
    sent (Run.final step state (round :: rounds)) = sent state ++ [item] := by
  have hidle := sender.settled h hanswered hsettles
  rw [Run.final_cons, sender.final_idle hidle, sender.send h hanswered]

/-- Over two rounds or more, the item is sent once exactly when the answers settle it. -/
theorem sent_once_iff {state : σ} (h : sender.waiting state) {first second : ε}
    {rounds : List ε} (hanswered : ∀ round ∈ first :: second :: rounds, answered round) :
    sent (Run.final step state (first :: second :: rounds)) = sent state ++ [item] ↔
      settles := by
  by_cases hsettles : settles
  · have hfirst := hanswered first List.mem_cons_self
    simp only [sender.sent_first h hsettles hfirst, hsettles]
  · rw [sender.sent_always h hsettles hanswered]
    simp [hsettles, List.replicate_succ]

end Sender

end Retry
