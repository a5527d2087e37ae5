import ZedSync.Lib.Run

/-!
Machines that answer every call. Two machines whose states stay related, and that then
answer alike, give the same answers to every run of calls.
-/

namespace Run

variable {σ τ ε ρ : Type}

/-- The answers to the calls of a run. -/
def replies (step : σ → ε → ρ × σ) : σ → List ε → List ρ
  | _, [] => []
  | state, call :: calls => (step state call).1 :: replies step (step state call).2 calls

/-- Related states answer a call alike, and stay related. -/
def Matches (first : σ → ε → ρ × σ) (second : τ → ε → ρ × τ) (related : σ → τ → Prop)
    (call : ε) : Prop :=
  ∀ state other, related state other →
    (first state call).1 = (second other call).1 ∧
      related (first state call).2 (second other call).2

theorem replies_eq {first : σ → ε → ρ × σ} {second : τ → ε → ρ × τ} (related : σ → τ → Prop)
    {calls : List ε} (hcalls : ∀ call ∈ calls, Matches first second related call)
    {state : σ} {other : τ} (h : related state other) :
    replies first state calls = replies second other calls := by
  induction calls generalizing state other with
  | nil => rfl
  | cons call calls ih =>
      obtain ⟨hreply, hnext⟩ := hcalls call List.mem_cons_self state other h
      have hrest := ih (fun later hlater => hcalls later (List.mem_cons_of_mem _ hlater)) hnext
      rw [replies, replies, hreply, hrest]

/-- Where a call of the run is answered differently whatever came before it, the answers
differ. -/
theorem replies_ne {first : σ → ε → ρ × σ} {second : τ → ε → ρ × τ} (related : σ → τ → Prop)
    (differs : ε → Prop) [DecidablePred differs]
    (hmatches : ∀ call, ¬ differs call → Matches first second related call)
    (hdiffers : ∀ call, differs call → ∀ state other, related state other →
      (first state call).1 ≠ (second other call).1)
    {calls : List ε} (hcall : ∃ call ∈ calls, differs call) {state : σ} {other : τ}
    (h : related state other) : replies first state calls ≠ replies second other calls := by
  induction calls generalizing state other with
  | nil =>
      obtain ⟨_, hmem, -⟩ := hcall
      cases hmem
  | cons call calls ih =>
      intro hsame
      rw [replies, replies] at hsame
      obtain ⟨hreply, hrest⟩ := List.cons.inj hsame
      by_cases hnow : differs call
      · exact hdiffers call hnow state other h hreply
      · obtain ⟨late, hmem, hlate⟩ := hcall
        have hlater : late ∈ calls := by
          rcases List.mem_cons.mp hmem with rfl | hlater
          · exact absurd hlate hnow
          · exact hlater
        exact ih ⟨late, hlater, hlate⟩ (hmatches call hnow state other h).2 hrest

end Run
