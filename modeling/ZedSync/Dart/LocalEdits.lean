import ZedSync.DeliveryStages

/-!
Whether a local edit outranks the row it edits, in the Dart client. The clock
and the storage come apart by the same paths as in the browser client: acks,
`serverFirst` puts, changes beyond the drift bound, and a new client.
-/

namespace ZedSync.Dart

open Async

/-- The version of a row, beside the clock of the client. -/
def rowRegister (table id : String) : Register device Hlc := rows.register (rowKey table id)

variable {table id : String}

theorem applyChange_feeds (config : ClientConfig) (incoming : ChangeEvent) :
    (applyChange config incoming).Follows (rowRegister table id).Next (fun _ _ => True)
      (.feeding none) := by
  show Prog.Follows _ _ _ (DeliveryStage.stamper incoming none .entering)
  exact (DeliveryStage.leads_applyChange config incoming).embed
    (DeliveryStage.stamper incoming none)
    (fun h => (DeliveryStage.next_delivers h).stamper none) fun _ _ _ => trivial

/-- What puts nothing dirty takes no part in the stamping. -/
theorem clean_follows {program : Prog device α} {stage : Stamper Hlc} (hwrites : stage.Writes)
    (h : program.Only Action.PutsClean) :
    program.Follows (rowRegister table id).Next (fun _ _ => True) stage := by
  refine Rows.clean_follows hwrites (h.mono fun action hclean key put hdoes => ?_)
  cases action with
  | putRow table' id' row =>
      obtain ⟨-, rfl⟩ := Touch.put.inj hdoes
      exact hclean
  | _ => cases hdoes

/-- A local write puts the stamp it holds. -/
theorem writeLocally_follows (config : ClientConfig) (queued : QueuedWrite) (mode : WriteMode)
    (policy : ErrorPolicy) (existing : Option StoredRow) :
    (writeLocally config queued mode policy existing).Follows (rowRegister table id).Next
      (fun _ _ => True) (.holding queued.baseVersion) := by
  intro reply
  obtain ⟨after, hnext, hwrites⟩ := rows.holding_next rfl reply
  refine ⟨after, hnext, clean_follows hwrites ⟨trivial, fun _ => ?_⟩⟩
  dsimp only
  split
  · trivial
  · exact sendQueued_putsClean _ _ _ _

theorem write_follows (config : ClientConfig) (table' id' : String) (row : Option Json)
    (options : WriteOptions) :
    (write config table' id' row options).Follows (rowRegister table id).Next (fun _ _ => True)
      .idle := by
  intro refusal
  refine ⟨.idle, ⟨nofun, rfl⟩, ?_⟩
  cases refusal with
  | some phase => trivial
  | none =>
      refine fun version => ⟨.holding version, ⟨nofun, rfl⟩, fun key =>
        ⟨.holding version, ⟨nofun, rfl⟩, ?_⟩⟩
      simp only [writeStamped]
      split
      · exact clean_follows trivial (writeThroughServer_putsClean _ _ _ _)
      · exact fun existing => ⟨.holding version, ⟨nofun, rfl⟩, writeLocally_follows _ _ _ _ _⟩

/-- The calls that deliver changes. -/
def Call.delivers : Call → Bool
  | .applyChange _ => true
  | _ => false

theorem call_follows (config : ClientConfig) (call : Call) :
    (call.program config).Follows (rowRegister table id).Next (fun _ _ => True)
      (if call.delivers then .feeding none else .idle) := by
  cases call with
  | applyChange incoming => exact (applyChange_feeds config incoming).bind fun _ _ _ => trivial
  | write table' id' row options =>
      exact (write_follows config table' id' row options).bind fun _ _ _ => trivial
  | flushQueue =>
      exact clean_follows trivial ((flushQueue_putsClean config).bind fun _ => trivial)
  | newClient => exact clean_follows trivial ⟨trivial, fun _ => trivial⟩

/-- Which threads deliver changes. -/
def delivering (calls : List Call) (thread : Nat) : Bool := calls[thread]?.any Call.delivers

/-- In any interleaving of calls, with new clients taking over at any time, the stamps put
into a row outrank it exactly when they outrank what came past the clock, or since they
were taken. -/
theorem stamps_outrank_iff (config : ClientConfig) (calls : List Call) (world : World)
    (schedule : List (Pool.Turn device)) (table id : String) :
    let pool : Pool device (Outcome CallResult) :=
      { world := world, threads := calls.map (Call.program config) }
    pool.Heeds (rowRegister table id).Outranks schedule ↔
      pool.Watched ((rowRegister table id).mark (delivering calls))
        (rowRegister table id).OutranksForeign schedule ((rowRegister table id).start world) := by
  intro pool
  refine Register.along_outranks_iff schedule fun i program hprogram => ?_
  obtain ⟨call, hcall, rfl⟩ := by simpa [pool] using hprogram
  simpa [delivering, hcall] using call_follows config call

end ZedSync.Dart
