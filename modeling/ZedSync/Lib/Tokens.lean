import ZedSync.Lib.Run

/-!
Authority by numbered tokens. A ledger counts the tokens it has issued and names
at most one of them as the active one. It issues the next number and makes it
active, or revokes the active token; it never goes back to an older one. A token
that was issued and is not active is dead for the rest of every run.
-/

namespace Tokens

/-- The number of the last token issued, and the active token. -/
structure Ledger where
  issued : Nat
  active : Option Nat
  deriving DecidableEq, Repr

namespace Ledger

/-- The token was issued, and is not the active one. -/
def Revoked (ledger : Ledger) (token : Nat) : Prop :=
  0 < token ∧ token ≤ ledger.issued ∧ ledger.active ≠ some token

/-- What one step may do to a ledger. -/
inductive Moves (before : Ledger) : Ledger → Prop
  | kept : Moves before before
  | revoked : Moves before { before with active := none }
  | issued : Moves before { issued := before.issued + 1, active := some (before.issued + 1) }

variable {before after : Ledger}

theorem Moves.issued_le (h : Moves before after) : before.issued ≤ after.issued := by
  cases h with
  | kept => exact Nat.le_refl _
  | revoked => exact Nat.le_refl _
  | issued => exact Nat.le_succ _

/-- No step restores a revoked token. -/
theorem Moves.keeps_revoked (h : Moves before after) {token : Nat}
    (hrevoked : before.Revoked token) : after.Revoked token := by
  obtain ⟨hpositive, hle, hinactive⟩ := hrevoked
  refine ⟨hpositive, Nat.le_trans hle h.issued_le, ?_⟩
  cases h with
  | kept => exact hinactive
  | revoked => exact nofun
  | issued =>
      intro hactive
      have hnext := Option.some.inj hactive
      omega

end Ledger

variable {σ ε : Type} {step : σ → ε → σ} {ledger : σ → Ledger}

/-- In a system whose steps all move its ledger, a token once revoked is revoked
in every state a run reaches from there. -/
theorem revoked_run (hmoves : ∀ state event, (ledger state).Moves (ledger (step state event)))
    {start : σ} {token : Nat} (hrevoked : (ledger start).Revoked token) (events : List ε) :
    (ledger (Run.final step start events)).Revoked token := by
  induction events generalizing start with
  | nil => exact hrevoked
  | cons event events ih => exact ih ((hmoves start event).keeps_revoked hrevoked)

end Tokens
