import ZedSync.DeliveryStages

/-!
Whether a local edit outranks the row it edits. The stamp comes from the in-memory clock,
the row from the durable store. A delivery has the clock fold its change in before it
puts it; acks, `server_first` puts, changes beyond the drift bound and a new client over
an old store all leave the clock behind the row.
-/

namespace ZedSync.Js

open Async

/-- The version of a row, beside the clock of the client. -/
def rowRegister (table id : String) : Register session Hlc := rows.register (rowKey table id)

variable {table id : String}

theorem applyChange_feeds (config : ClientConfig) (incoming : ChangeEvent)
    (observed : Option Hlc) :
    (applyChange config incoming).Follows (rowRegister table id).Next
      (fun _ after => ∃ observed, after = .feeding observed) (.feeding observed) := by
  show Prog.Follows _ _ _ (DeliveryStage.stamper incoming observed .entering)
  refine (DeliveryStage.leads_applyChange config incoming).embed
    (DeliveryStage.stamper incoming observed)
    (fun h => (DeliveryStage.next_delivers h).stamper observed) fun _ stage _ => ?_
  cases stage <;> exact ⟨_, rfl⟩

theorem hydrate_feeds (config : ClientConfig) (changes : List ChangeEvent)
    (observed : Option Hlc) :
    (hydrate config changes).Follows (rowRegister table id).Next (fun _ _ => True)
      (.feeding observed) := by
  induction changes generalizing observed with
  | nil => trivial
  | cons change rest ih =>
      refine (applyChange_feeds config change observed).bind fun reply after hafter => ?_
      obtain ⟨observed, rfl⟩ := hafter
      cases reply with
      | error error => trivial
      | ok outcome => exact ih observed

/-- What puts nothing dirty takes no part in the stamping. -/
theorem clean_follows {program : Prog session α} {stage : Stamper Hlc} (hwrites : stage.Writes)
    (h : program.Only Action.PutsClean) :
    program.Follows (rowRegister table id).Next (fun _ _ => True) stage := by
  refine Rows.clean_follows hwrites (h.mono fun action hclean key put hdoes => ?_)
  obtain ⟨table', id', hputs, -⟩ := touches_put.mp hdoes
  exact hclean.clean table' id' put hputs

/-- A local write puts the stamp it holds. -/
theorem writeLocally_follows (config : ClientConfig) (write : QueuedWrite) (merge : Bool)
    (mode : WriteMode) (policy : ErrorPolicy) (existing : Option StoredRow) :
    (writeLocally config write merge mode policy existing).Follows (rowRegister table id).Next
      (fun _ _ => True) (.holding write.baseVersion) := by
  unfold writeLocally
  dsimp only
  split
  all_goals
    intro reply
    obtain ⟨after, hnext, hwrites⟩ := rows.holding_next rfl reply
    exact ⟨after, hnext, clean_follows hwrites (queueAndSend_putsClean _ _ _ _)⟩

theorem write_follows (config : ClientConfig) (table' id' : String) (row : Option Json)
    (options : WriteOptions) :
    (write config table' id' row options).Follows (rowRegister table id).Next (fun _ _ => True)
      .idle := by
  intro refusal
  refine ⟨.idle, ⟨nofun, rfl⟩, ?_⟩
  cases refusal with
  | some phase => trivial
  | none =>
      refine fun version => ⟨.holding version, ⟨nofun, rfl⟩, fun key =>
        ⟨.holding version, ⟨nofun, rfl⟩, ?_⟩⟩
      simp only [writeStamped]
      split
      · exact clean_follows trivial (writeThroughServer_putsClean _ _ _ _)
      · exact fun existing => ⟨.holding version, ⟨nofun, rfl⟩, writeLocally_follows _ _ _ _ _ _⟩

/-- The calls that deliver changes. -/
def Call.delivers : Call → Bool
  | .applyChange _ | .hydrate _ => true
  | _ => false

theorem call_follows (config : ClientConfig) (call : Call) :
    (call.program config).Follows (rowRegister table id).Next (fun _ _ => True)
      (if call.delivers then .feeding none else .idle) := by
  cases call with
  | applyChange incoming => exact (applyChange_feeds config incoming none).bind fun _ _ _ => trivial
  | hydrate changes => exact (hydrate_feeds config changes none).bind fun _ _ _ => trivial
  | write table' id' row options =>
      exact (write_follows config table' id' row options).bind fun _ _ _ => trivial
  | flushQueue policy =>
      refine clean_follows trivial ?_
      exact (flushQueue_putsClean config policy).bind fun _ => trivial
  | newClient newProcess =>
      exact clean_follows trivial ⟨putsClean_of_none rfl fun h => h, fun _ => trivial⟩

/-- Which threads deliver changes. -/
def delivering (calls : List Call) (thread : Nat) : Bool := calls[thread]?.any Call.delivers

/-- In any interleaving of calls, with new clients taking over at any time, the stamps put
into a row outrank it exactly when they outrank what came past the clock, or since they
were taken. -/
theorem stamps_outrank_iff (config : ClientConfig) (calls : List Call) (world : World)
    (schedule : List (Pool.Turn session)) (table id : String) :
    let pool : Pool session (Outcome CallResult) :=
      { world := world, threads := calls.map (Call.program config) }
    pool.Heeds (rowRegister table id).Outranks schedule ↔
      pool.Watched ((rowRegister table id).mark (delivering calls))
        (rowRegister table id).OutranksForeign schedule ((rowRegister table id).start world) := by
  intro pool
  refine Register.along_outranks_iff schedule fun i program hprogram => ?_
  obtain ⟨call, hcall, rfl⟩ := by simpa [pool] using hprogram
  simpa [delivering, hcall] using call_follows config call

end ZedSync.Js
