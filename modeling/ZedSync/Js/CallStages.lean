import ZedSync.Js.Client
import ZedSync.Lib.Stages

/-!
The stages of a call on the client: a key is minted, put on the one change the call
queues or sends itself, and a settlement follows the answer to what was sent last.
Whatever the store and the outside reply, every call of a process goes through these
stages.
-/

namespace ZedSync.Js

open Async

/-- How far a call has come. -/
structure CallStage where
  /-- The key it minted, while no change has it. -/
  held : Option String := none
  /-- The change it put its key on. -/
  own : Option ChangeEvent := none
  /-- The queue as it last read it. -/
  listed : List QueueEntry := []
  /-- The entry it last handed over. -/
  source : Option QueueEntry := none
  /-- The change it last handed over. -/
  sent : Option ChangeEvent := none
  /-- What was handed over last is answered, and not with a failure. -/
  answered : Bool := false

namespace CallStage

def isOk : Response → Bool
  | .ok _ => true
  | .failed _ => false

/-- Where an action and its reply lead. -/
def Next (stage : CallStage) : (action : Action) → action.Reply → CallStage → Prop
  | .nextKey, key, after => after = { stage with held := some key }
  | .enqueue write, _, after =>
      stage.held = some write.key ∧
        after = { stage with held := none, own := some (write.atSeq 0).change }
  | .handOff change, _, after =>
      (stage.own = some change ∧
          after = { stage with source := none, sent := some change, answered := false }) ∨
        ∃ key, stage.held = some key ∧ change.writeKey = some key ∧
          after = { stage with
            held := none, source := none, sent := some change, answered := false }
  | .handOffEntry entry, change, after =>
      entry ∈ stage.listed ∧
        after = { stage with source := some entry, sent := some change, answered := false }
  | .fetch change, _, after => stage.sent = some change ∧ after = stage
  | .response, response, after => after = { stage with answered := isOk response }
  | .pending, entries, after => after = { stage with listed := entries }
  | .settleAck options, _, after =>
      stage.answered = true ∧ after = stage ∧
        ∃ (write : QueuedWrite) (seq : Nat) (committedVersion : Option Hlc) (now : Nat),
          stage.sent = some (write.atSeq seq).change ∧
            options = .ofEntry (write.atSeq seq) committedVersion now
  | .settleEntry entry _, _, after =>
      stage.answered = true ∧ stage.source = some entry ∧ after = stage
  | .newClient true, _, _ => False
  | .requireCapability _, _, after | .observe _, _, after | .tick _ _, _, after
  | .dateNow, _, after | .getRow _ _, _, after | .putRow _ _ _ _, _, after
  | .removeRow _ _ _, _, after | .retire _, _, after | .token, _, after
  | .newClient false, _, after => after = stage
  | .dispatch _, _, _ | .lock, _, _ | .renew, _, _ | .afterRenew _ _, _, _
  | .readHandle, _, _ | .stopBegin, _, _ | .releaseLease, _, _ | .settled, _, _ => False

/-- The actions that take a call further. -/
def advances : Action → Bool
  | .nextKey | .enqueue _ | .handOff _ | .handOffEntry _ | .response | .pending => true
  | _ => false

/-- Any other action leaves a call at its stage. -/
theorem next_same {stage after : CallStage} {action : Action} {reply : action.Reply}
    (h : stage.Next action reply after) (hidle : advances action = false) : after = stage := by
  cases action with
  | nextKey | enqueue _ | handOff _ | handOffEntry _ | response | pending => cases hidle
  | fetch change => exact h.2
  | settleAck options => exact h.2.1
  | settleEntry entry committedVersion => exact h.2.2
  | newClient newProcess =>
      cases newProcess with
      | true => exact h.elim
      | false => exact h
  | dispatch _ | lock | renew | afterRenew _ _ | readHandle | stopBegin | releaseLease
  | settled => exact h.elim
  | _ => exact h

/-- The program goes through the stages from this one, and ends where `E` says. -/
abbrev Leads (stage : CallStage) (program : Prog session α)
    (E : α → CallStage → Prop := fun _ _ => True) : Prop :=
  program.Follows Next E stage

variable {stage : CallStage}

/-- A finished call. -/
theorem leads_ret (value : α) : stage.Leads (.ret value) := trivial

/-- The change was sent, and answered, and the queue was not read again. -/
def Answered (stage : CallStage) (change : ChangeEvent) (reply : Outcome (Option Hlc))
    (after : CallStage) : Prop :=
  ∀ committedVersion, reply = .ok committedVersion →
    after.sent = some change ∧ after.answered = true ∧ after.source = stage.source ∧
      after.listed = stage.listed

theorem leads_response {change : ChangeEvent} (hsent : stage.sent = some change) :
    stage.Leads transmit.awaitResponse (Answered stage change) := by
  intro response
  refine ⟨_, rfl, ?_⟩
  cases response with
  | failed message =>
      intro committedVersion herror
      cases herror
  | ok committedVersion => exact fun _ _ => ⟨hsent, rfl, rfl, rfl⟩

theorem leads_transmit {change : ChangeEvent} (hsent : stage.sent = some change)
    (transport : SendTransport) :
    stage.Leads (transmit transport change) (Answered stage change) := by
  cases transport with
  | custom => exact leads_response hsent
  | backend getToken =>
      cases getToken with
      | false => exact fun _ => ⟨stage, ⟨hsent, rfl⟩, leads_response hsent⟩
      | true =>
          intro tokenOk
          refine ⟨stage, rfl, ?_⟩
          cases tokenOk with
          | false =>
              intro committedVersion herror
              cases herror
          | true => exact fun _ => ⟨stage, ⟨hsent, rfl⟩, leads_response hsent⟩

/-- The change may be sent: it has the call's key, or gets it now. -/
def MaySend (stage : CallStage) (change : ChangeEvent) : Prop :=
  stage.own = some change ∨ ∃ key, stage.held = some key ∧ change.writeKey = some key

theorem leads_doSend {change : ChangeEvent} (hmay : stage.MaySend change)
    (config : ClientConfig) :
    stage.Leads (doSend config change) fun reply after =>
      ∀ committedVersion, reply = .ok committedVersion →
        after.sent = some change ∧ after.answered = true := by
  unfold doSend
  split
  · intro committedVersion herror
    cases herror
  · rename_i transport _
    intro reply
    have hafter : ∃ after, stage.Next (.handOff change) reply after ∧
        after.sent = some change := by
      rcases hmay with hown | ⟨key, hheld, hkey⟩
      · exact ⟨_, Or.inl ⟨hown, rfl⟩, rfl⟩
      · exact ⟨_, Or.inr ⟨key, hheld, hkey, rfl⟩, rfl⟩
    obtain ⟨after, hnext, hsent⟩ := hafter
    refine ⟨after, hnext, (leads_transmit hsent transport).mono ?_⟩
    intro reply last hanswered committedVersion hok
    exact ⟨(hanswered committedVersion hok).1, (hanswered committedVersion hok).2.1⟩

theorem leads_sendQueued {write : QueuedWrite} (hown : stage.own = some (write.atSeq 0).change)
    (config : ClientConfig) (seq : Nat) (mode : WriteMode) (policy : ErrorPolicy) :
    stage.Leads (sendQueued config write seq mode policy) := by
  refine (leads_doSend (Or.inl hown) config).bind fun reply after hanswered => ?_
  cases reply with
  | error error => exact leads_ret _
  | ok committedVersion =>
      obtain ⟨hsent, hok⟩ := hanswered committedVersion rfl
      intro now
      exact ⟨after, rfl, fun _ =>
        ⟨after, ⟨hok, rfl, write, seq, committedVersion, now, hsent, rfl⟩, leads_ret _⟩⟩

/-- A write is queued under the call's key, and sent as it was queued. -/
theorem leads_queueAndSend {write : QueuedWrite} (hheld : stage.held = some write.key)
    (config : ClientConfig) (mode : WriteMode) (policy : ErrorPolicy) :
    stage.Leads (queueAndSend config write mode policy) := by
  simp only [queueAndSend, act, Prog.call_bind, Prog.ret_bind]
  intro reply
  refine ⟨_, ⟨hheld, rfl⟩, ?_⟩
  obtain ⟨seq, dropped⟩ := reply
  dsimp only
  cases dropped.filter fun _ => config.errorPolicy.shouldThrow with
  | some dropped => exact leads_ret _
  | none =>
      dsimp only
      split
      · exact leads_ret _
      · exact leads_sendQueued rfl config seq mode policy

theorem leads_writeLocally {write : QueuedWrite} (hheld : stage.held = some write.key)
    (config : ClientConfig) (merge : Bool) (mode : WriteMode) (policy : ErrorPolicy)
    (existing : Option StoredRow) :
    stage.Leads (writeLocally config write merge mode policy existing) := by
  unfold writeLocally
  dsimp only
  split
  all_goals
    refine fun _ => ⟨stage, rfl, ?_⟩
    apply leads_queueAndSend
    exact hheld

theorem leads_writeThroughServer {change : ChangeEvent} {key : String}
    (hheld : stage.held = some key) (hkey : change.writeKey = some key)
    (config : ClientConfig) (mode : WriteMode) (policy : ErrorPolicy) :
    stage.Leads (writeThroughServer config change mode policy) := by
  refine (leads_doSend (Or.inr ⟨key, hheld, hkey⟩) config).bind fun reply after _ => ?_
  cases reply with
  | error error => exact leads_ret _
  | ok committedVersion =>
      dsimp only
      split
      · exact fun _ => ⟨after, rfl, fun _ => ⟨after, rfl, leads_ret _⟩⟩
      · exact leads_ret _

theorem leads_write (config : ClientConfig) (table id : String) (row : Option Json)
    (options : WriteOptions) : stage.Leads (write config table id row options) := by
  intro refusal
  refine ⟨stage, rfl, ?_⟩
  cases refusal with
  | some phase => exact leads_ret _
  | none =>
      refine fun version => ⟨stage, rfl, fun key => ⟨_, rfl, ?_⟩⟩
      dsimp only
      unfold writeStamped
      split
      · exact leads_writeThroughServer rfl rfl config _ _
      · exact fun existing => ⟨_, rfl, leads_writeLocally rfl config _ _ _ existing⟩

/-- An entry of the queue as the call last read it is sent under the key it has now. -/
theorem leads_sendEntry {entry : QueueEntry} (hlisted : entry ∈ stage.listed)
    (config : ClientConfig) :
    stage.Leads (flushEach.sendEntry config entry) fun reply after =>
      ∀ committedVersion, reply = .ok committedVersion →
        after.answered = true ∧ after.source = some entry ∧ after.listed = stage.listed := by
  unfold flushEach.sendEntry
  split
  · intro committedVersion herror
    cases herror
  · rename_i transport _
    intro change
    refine ⟨_, ⟨hlisted, rfl⟩, (leads_transmit rfl transport).mono ?_⟩
    intro reply last hanswered committedVersion hok
    obtain ⟨-, hdone, hsource, hkept⟩ := hanswered committedVersion hok
    exact ⟨hdone, hsource, hkept⟩

theorem leads_flushEach (config : ClientConfig) (policy : ErrorPolicy) (sent : Nat)
    (entries : List QueueEntry) (hlisted : entries ⊆ stage.listed) :
    stage.Leads (flushEach config policy sent entries) := by
  induction entries generalizing sent stage with
  | nil => exact leads_ret _
  | cons entry rest ih =>
      obtain ⟨hentry, hrest⟩ := List.cons_subset.mp hlisted
      unfold flushEach
      refine (leads_sendEntry hentry config).bind fun reply after hanswered => ?_
      cases reply with
      | error error => exact leads_ret _
      | ok committedVersion =>
          obtain ⟨hdone, hsource, hkept⟩ := hanswered committedVersion rfl
          exact fun _ => ⟨after, ⟨hdone, hsource, rfl⟩, ih _ (hkept ▸ hrest)⟩

theorem leads_flushQueue (config : ClientConfig) (policy : ErrorPolicy) :
    stage.Leads (flushQueue config policy) := by
  intro refusal
  refine ⟨stage, rfl, ?_⟩
  cases refusal with
  | some phase => exact leads_ret _
  | none =>
      exact fun entries => ⟨_, rfl, leads_flushEach config policy 0 entries fun _ h => h⟩

/-- A delivery mints no key, and sends and settles nothing. -/
theorem leads_applyChange (config : ClientConfig) (incoming : ChangeEvent) :
    stage.Leads (applyChange config incoming) := by
  refine Prog.Follows.of_only (P := fun _ => True) ?_ (applyChange_delivers config incoming)
    trivial
  intro stage action reply _ hdelivers
  rcases hdelivers with ⟨stored, hputs, -⟩ | hother
  · cases action <;> first | exact ⟨stage, rfl, trivial⟩ | cases hputs
  · cases action <;> first | exact hother.elim | exact ⟨_, rfl, trivial⟩

theorem leads_hydrate (config : ClientConfig) (changes : List ChangeEvent) :
    stage.Leads (hydrate config changes) := by
  induction changes generalizing stage with
  | nil => exact leads_ret _
  | cons change rest ih =>
      unfold hydrate
      refine (leads_applyChange config change).bind fun reply after _ => ?_
      cases reply with
      | error error => exact leads_ret _
      | ok outcome => exact ih

/-- Every call goes through the stages, but for the start of another process. -/
theorem leads_call (config : ClientConfig) {call : Call} (hcall : call ≠ .newClient true) :
    stage.Leads (call.program config) := by
  cases call with
  | applyChange incoming =>
      exact (leads_applyChange config incoming).bind fun _ _ _ => leads_ret _
  | hydrate changes => exact (leads_hydrate config changes).bind fun _ _ _ => leads_ret _
  | write table id row options =>
      exact (leads_write config table id row options).bind fun _ _ _ => leads_ret _
  | flushQueue policy => exact (leads_flushQueue config policy).bind fun _ _ _ => leads_ret _
  | newClient newProcess =>
      cases newProcess with
      | true => exact absurd rfl hcall
      | false => exact fun _ => ⟨stage, rfl, leads_ret _⟩

end CallStage

end ZedSync.Js
