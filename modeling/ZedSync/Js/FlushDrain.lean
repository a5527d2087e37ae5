import ZedSync.Js.DirtyRows
import ZedSync.Js.Settlement
import ZedSync.Lib.Drain

/-!
How the flushes of a browser client drain its queue. A flush sends the slots in their
order up to the first request that fails, whichever transport it has. An answer at or
above the base of its write takes the slot away and cleans the row; an answer below it
is counted as sent, and the slot stays for the next flush.
-/

namespace ZedSync.Js

open Async

/-- The settlement refuses the answer: its version is below the base of the write. -/
def Refuses (entry : QueueEntry) (committedVersion : Option Hlc) : Prop :=
  committedVersion.getD entry.baseVersion < entry.baseVersion

instance (entry : QueueEntry) (committedVersion : Option Hlc) :
    Decidable (Refuses entry committedVersion) :=
  inferInstanceAs (Decidable (_ < _))

def Response.outcome : Response → Outcome (Option Hlc)
  | .failed message => .error (.sendFailed message)
  | .ok committedVersion => .ok committedVersion

namespace SendTransport

/-- The actions of an answered transmission. -/
def turns : SendTransport → Nat
  | .custom => 1
  | .backend false => 2
  | .backend true => 3

/-- What a transmission settles with, by what the outside answers its actions. -/
def reply : SendTransport → List Input → Outcome (Option Hlc)
  | .custom, inputs => (inputs.headD {}).response.outcome
  | .backend false, inputs => (inputs.tail.headD {}).response.outcome
  | .backend true, inputs =>
      if (inputs.headD {}).tokenOk then (inputs.tail.tail.headD {}).response.outcome
      else .error (.sendFailed "getToken rejected")

/-- What the exchanges of a flush are answered: each is a hand-off, a transmission and
a settlement. -/
def answer (transport : SendTransport) (inputs : List Input) (i : Nat) : Option (Option Hlc) :=
  match transport.reply (inputs.drop ((transport.turns + 2) * i + 1)) with
  | .error _ => none
  | .ok committedVersion => some committedVersion

theorem answer_zero (transport : SendTransport) (inputs : List Input) :
    transport.answer inputs 0 = match transport.reply inputs.tail with
      | .error _ => none
      | .ok committedVersion => some committedVersion := by
  simp [answer]

theorem answer_later (transport : SendTransport) (inputs : List Input) :
    (fun i => transport.answer inputs (i + 1)) =
      transport.answer (inputs.drop (transport.turns + 2)) := by
  funext i
  simp only [answer, List.drop_drop, Nat.mul_succ]
  have hplace : (transport.turns + 2) * i + (transport.turns + 2) + 1 =
      transport.turns + 2 + ((transport.turns + 2) * i + 1) := by omega
  rw [hplace]

end SendTransport

/-- The writes a flush sends, each with its answer. -/
def flushAttempts (config : ClientConfig) (world : World) (inputs : List Input) :
    List (QueueEntry × Option (Option Hlc)) :=
  match config.send, world.refusal .canWrite with
  | some transport, none =>
      Drain.attempts world.store.queue (transport.answer (inputs.drop 2))
  | _, _ => []

/-- The next flush of a run: its error policy, and what the outside answers it. -/
def flushRound (config : ClientConfig) (world : World) (round : ErrorPolicy × List Input) :
    World :=
  flush config round.1 world round.2

/-- The writes that the flushes of a run send, each with its answer. -/
def allAttempts (config : ClientConfig) (start : World)
    (rounds : List (ErrorPolicy × List Input)) : List (QueueEntry × Option (Option Hlc)) :=
  Drain.log (flushRound config) (fun world round => flushAttempts config world round.2) start
    rounds

/-- What the attempts left of the row under a key. -/
inductive RowDrained (start : Store) (made : List (QueueEntry × Option (Option Hlc)))
    (after : Store) (key : String) : Prop
  | untouched (hrow : after.rows key = start.rows key)
      (hnone : ∀ attempt ∈ made, rowKey attempt.1.table attempt.1.id = key →
        ¬ Drain.Settles Refuses attempt)
  | cleaned (entry : QueueEntry) (committedVersion : Option Hlc) (now : Nat) (stored : StoredRow)
      (hmade : (entry, some committedVersion) ∈ made) (haccepts : ¬ Refuses entry committedVersion)
      (hkey : rowKey entry.table entry.id = key) (hstored : start.rows key = some stored)
      (hrow : after.rows key = some
        { row := stored.row
          rowMeta :=
            { version := committedVersion.getD entry.baseVersion, dirty := false,
              syncedAtMs := some now } })

/-- Between two exchanges of the flushes of a run. -/
structure Draining (start : Store) (made : List (QueueEntry × Option (Option Hlc)))
    (store : Store) : Prop where
  slots : store.Slots
  matched : store.Matched
  kept : store.queue.Sublist start.queue
  rows : ∀ key, RowDrained start made store key

theorem Draining.begin {store : Store} (hslots : store.Slots) (hmatched : store.Matched) :
    Draining store [] store :=
  ⟨hslots, hmatched, List.Sublist.refl _, fun _ => .untouched rfl nofun⟩

section Exchange

variable {start store : Store} {made : List (QueueEntry × Option (Option Hlc))}
  {kept rest : List QueueEntry} {entry : QueueEntry}

/-- The settlement of a queued write, by what it is answered. -/
theorem Store.Matched.settles_reached (hmatched : store.Matched) (hslots : store.Slots)
    (hqueue : store.queue = kept ++ entry :: rest) (committedVersion : Option Hlc) (now : Nat) :
    ∃ stored, store.getRow entry.table entry.id = some stored ∧ stored.rowMeta.dirty = true ∧
      (store.settleAck (.ofEntry entry committedVersion now)).2 =
        if Refuses entry committedVersion then store
        else
          { store with
            queue := kept ++ rest
            detached := entry :: store.detached }.setRow entry.table entry.id
            { row := stored.row
              rowMeta :=
                { version := committedVersion.getD entry.baseVersion, dirty := false,
                  syncedAtMs := some now } } := by
  have hslot : store.queue[kept.length]? = some entry := by simp [hqueue]
  have hentry : entry ∈ store.queue := List.mem_of_getElem? hslot
  obtain ⟨-, stored, hstored, hdirty, hversion⟩ := hmatched.slots entry hentry
  have hfound : store.queue.findIdx? (·.seq = entry.seq) = some kept.length := by
    have hsome : (store.queue.findIdx? (·.seq = entry.seq)).isSome = true := by
      rw [List.findIdx?_isSome, List.any_eq_true]
      exact ⟨entry, hentry, by simp⟩
    obtain ⟨index, hindex⟩ := Option.isSome_iff_exists.mp hsome
    obtain ⟨hlt, hseq, -⟩ := List.findIdx?_eq_some_iff_getElem.mp hindex
    have hsame := hslots.eq_of_seq (List.getElem_mem hlt) hentry (by simpa using hseq)
    rw [hindex, hslots.place_eq ((List.getElem?_eq_getElem hlt).trans (congrArg some hsame)) hslot]
  have hexact : SettlesSlot store (.ofEntry entry committedVersion now) kept.length entry stored :=
    ⟨hfound, hslot, hstored, rfl, rfl, hversion⟩
  have herase : store.queue.eraseIdx kept.length = kept ++ rest := by
    simp [hqueue, List.eraseIdx_append_of_length_le]
  refine ⟨stored, hstored, hdirty, ?_⟩
  rw [Store.settleAck_exact hexact, hversion, herase]
  rfl

/-- A row with a slot is as it was before the flushes. -/
theorem Draining.untouched (h : Draining start made store) (hentry : entry ∈ store.queue) :
    store.rows (rowKey entry.table entry.id) = start.rows (rowKey entry.table entry.id) := by
  obtain ⟨-, stored, hstored, hdirty, -⟩ := h.matched.slots entry hentry
  cases h.rows (rowKey entry.table entry.id) with
  | untouched hrow _ => exact hrow
  | cleaned _ _ _ _ _ _ _ _ hrow =>
      obtain rfl := Option.some.inj (hstored.symm.trans hrow)
      cases hdirty

/-- One attempt more that takes no slot away. -/
theorem Draining.refused (h : Draining start made store)
    {attempt : QueueEntry × Option (Option Hlc)} (hrefused : ¬ Drain.Settles Refuses attempt) :
    Draining start (made ++ [attempt]) store := by
  refine ⟨h.slots, h.matched, h.kept, fun key => ?_⟩
  cases h.rows key with
  | untouched hrow hnone =>
      apply RowDrained.untouched hrow
      intro other hother hkey
      rcases List.mem_append.mp hother with hbefore | hself
      · exact hnone other hbefore hkey
      · rwa [List.mem_singleton.mp hself]
  | cleaned entry committedVersion now stored hmade haccepts hkey hstored hrow =>
      exact .cleaned entry committedVersion now stored (List.mem_append_left _ hmade) haccepts hkey
        hstored hrow

/-- An exchange that was answered. -/
theorem Draining.settled (h : Draining start made store)
    (hqueue : store.queue = kept ++ entry :: rest) (committedVersion : Option Hlc) (now : Nat) :
    let after := (store.settleAck (.ofEntry entry committedVersion now)).2
    Draining start (made ++ [(entry, some committedVersion)]) after ∧
      after.queue =
        (if Refuses entry committedVersion then kept ++ [entry] else kept) ++ rest := by
  intro after
  have hentry : entry ∈ store.queue := by simp [hqueue]
  obtain ⟨stored, hstored, -, hafter⟩ :=
    h.matched.settles_reached h.slots hqueue committedVersion now
  have hmatched : after.Matched := h.matched.settled h.slots hentry committedVersion now
  by_cases hrefuses : Refuses entry committedVersion
  · rw [if_pos hrefuses] at hafter
    have hsame : after = store := hafter
    rw [hsame, if_pos hrefuses]
    have hnot : ¬ Drain.Settles Refuses (entry, some committedVersion) := by
      rw [Drain.settles_some_iff]
      exact not_not.mpr hrefuses
    exact ⟨h.refused hnot, by simpa using hqueue⟩
  · rw [if_neg hrefuses] at hafter
    have hleft : after.queue = kept ++ rest := congrArg Store.queue hafter
    have hshorter : after.queue.Sublist store.queue := by
      rw [hleft, hqueue]
      exact (List.Sublist.refl kept).append (List.sublist_cons_self entry rest)
    have hseq : after.seq = store.seq := (congrArg Store.seq hafter).trans rfl
    have hslots : after.Slots := h.slots.of_sublist hshorter hseq
    rw [if_neg hrefuses]
    refine ⟨⟨hslots, hmatched, hshorter.trans h.kept, fun key => ?_⟩, hleft⟩
    by_cases hkey : key = rowKey entry.table entry.id
    · subst hkey
      refine .cleaned entry committedVersion now stored
        (List.mem_append_right _ (List.mem_singleton_self _)) hrefuses rfl ?_ ?_
      · exact (h.untouched hentry).symm.trans hstored
      · rw [show after = _ from hafter]
        exact if_pos rfl
    · have hrow : after.rows key = store.rows key := by
        rw [show after = _ from hafter, Store.setRow_others _ _ hkey]
      cases h.rows key with
      | untouched hbefore hnone =>
          apply RowDrained.untouched (hrow.trans hbefore)
          intro other hother hotherKey
          rcases List.mem_append.mp hother with hearlier | hself
          · exact hnone other hearlier hotherKey
          · rw [List.mem_singleton.mp hself] at hotherKey
            exact absurd hotherKey.symm hkey
      | cleaned other committed at' was hmade haccepts hotherKey hwas hbefore =>
          exact .cleaned other committed at' was (List.mem_append_left _ hmade) haccepts hotherKey
            hwas (hrow.trans hbefore)

end Exchange

section Loop

variable {config : ClientConfig} {transport : SendTransport} {start : Store}
  {made : List (QueueEntry × Option (Option Hlc))} {kept : List QueueEntry} {world : World}

/-- A transmission in front of what awaits it. -/
theorem transmit_run (transport : SendTransport) (change : ChangeEvent)
    (next : Outcome (Option Hlc) → Prog session α) (inputs : List Input) (world : World) :
    ∃ requests later,
      (transmit transport change >>= next).run inputs world =
        (next (transport.reply inputs)).run later { world with requests := requests } ∧
      ∀ committedVersion, transport.reply inputs = .ok committedVersion →
        later = inputs.drop transport.turns := by
  let issued : List HttpRequest :=
    world.requests ++ [{ change := change, fence := world.getFence, held := world.held }]
  cases transport with
  | custom =>
      refine ⟨world.requests, inputs.tail, ?_, fun _ _ => by simp [SendTransport.turns]⟩
      simp only [transmit, transmit.awaitResponse, act, Prog.call_bind, Prog.ret_bind, Prog.run,
        perform, SendTransport.reply]
      cases (inputs.headD {}).response <;> rfl
  | backend getToken =>
      cases getToken with
      | false =>
          refine ⟨issued, inputs.tail.tail, ?_, fun _ _ => ?_⟩
          · simp only [transmit, transmit.awaitResponse, act, Prog.call_bind, Prog.ret_bind,
              Prog.run, perform, SendTransport.reply, Bool.false_eq_true, if_false]
            cases (inputs.tail.headD {}).response <;> rfl
          · simp only [SendTransport.turns, ← List.drop_one, List.drop_drop]
      | true =>
          by_cases htoken : (inputs.headD {}).tokenOk = true
          · refine ⟨issued, inputs.tail.tail.tail, ?_, fun _ _ => ?_⟩
            · simp only [transmit, transmit.awaitResponse, act, Prog.call_bind, Prog.ret_bind,
                Prog.run, perform, SendTransport.reply, htoken, if_true]
              cases (inputs.tail.tail.headD {}).response <;> rfl
            · simp only [SendTransport.turns, ← List.drop_one, List.drop_drop]
          · refine ⟨world.requests, inputs.tail, ?_, fun committedVersion hok => ?_⟩
            · simp only [transmit, act, Prog.call_bind, Prog.ret_bind, Prog.run, perform,
                SendTransport.reply, htoken, if_true]
              rfl
            · simp only [SendTransport.reply, htoken] at hok
              cases hok

/-- One exchange of a flush, and the flush behind it. -/
theorem flushEach_exchange (hsend : config.send = some transport) (policy : ErrorPolicy)
    (sent : Nat) {entry : QueueEntry} (rest : List QueueEntry) (inputs : List Input)
    (hslots : world.store.Slots) (hentry : entry ∈ world.store.queue) :
    ∃ requests now,
      (flushEach config policy sent (entry :: rest)).run inputs world =
        match transport.reply inputs.tail with
        | .error error =>
            (surface error policy sent,
              { world with handed := world.handed ++ [entry.change], requests := requests })
        | .ok committedVersion =>
            (flushEach config policy (sent + 1) rest).run (inputs.drop (transport.turns + 2))
              { world with
                handed := world.handed ++ [entry.change]
                requests := requests
                store := (world.store.settleAck (.ofEntry entry committedVersion now)).2 } := by
  have hderef := hslots.deref hentry
  obtain ⟨requests, later, hrun, hlater⟩ := transmit_run transport entry.change
    (fun outcome : Outcome (Option Hlc) => match outcome with
      | .error error => .ret (surface error policy sent)
      | .ok committedVersion => .call (.settleEntry entry committedVersion) fun _ =>
          flushEach config policy (sent + 1) rest)
    inputs.tail { world with handed := world.handed ++ [entry.change] }
  refine ⟨requests, (later.headD {}).now, ?_⟩
  have hexchange : (flushEach config policy sent (entry :: rest)).run inputs world = _ :=
    (by simp only [flushEach, flushEach.sendEntry, hsend, act, Prog.call_bind, Prog.ret_bind,
          Prog.run, perform, hderef]; rfl : _ = _).trans hrun
  rw [hexchange]
  cases hreply : transport.reply inputs.tail with
  | error error => rfl
  | ok committedVersion =>
      obtain rfl := hlater committedVersion hreply
      have hnext : (inputs.tail.drop transport.turns).tail = inputs.drop (transport.turns + 2) := by
        rw [← List.drop_one, ← List.drop_one, List.drop_drop, List.drop_drop]
        congr 1
        omega
      simp only [Prog.run, perform, World.settle, hderef, hnext]

/-- The requests of a flush from the write it has reached, what it leaves, and what its
promise settles with. -/
theorem Draining.flushEach (hsend : config.send = some transport) (policy : ErrorPolicy)
    {ahead : List QueueEntry} (h : Draining start made world.store)
    (hqueue : world.store.queue = kept ++ ahead) (sent : Nat) (inputs : List Input) :
    let outcome := (flushEach config policy sent ahead).run inputs world
    let attempts := Drain.attempts ahead (transport.answer inputs)
    let answered := attempts.countP (·.2.isSome)
    Draining start (made ++ attempts) outcome.2.store ∧
      outcome.2.store.queue = kept ++ Drain.left Refuses ahead (transport.answer inputs) ∧
      outcome.2.handed = world.handed ++ attempts.map (·.1.change) ∧
      ∃ error, outcome.1 = if answered = ahead.length then .ok (sent + answered)
        else surface error policy (sent + answered) := by
  induction ahead generalizing made kept world sent inputs with
  | nil =>
      refine ⟨?_, hqueue, ?_, .noSendTransport, rfl⟩
      · simpa [Drain.attempts, Js.flushEach, Prog.run] using h
      · simp [Drain.attempts, Js.flushEach, Prog.run]
  | cons entry rest ih =>
      have hentry : entry ∈ world.store.queue := by simp [hqueue]
      obtain ⟨requests, now, hexchange⟩ :=
        flushEach_exchange hsend policy sent rest inputs h.slots hentry
      rw [hexchange]
      have hanswer := transport.answer_zero inputs
      cases hreply : transport.reply inputs.tail with
      | error error =>
          have hnone : transport.answer inputs 0 = none := by rw [hanswer, hreply]
          simp only [Drain.attempts, Drain.left, hnone]
          refine ⟨h.refused (Drain.not_settles_none Refuses entry), hqueue, rfl, error, ?_⟩
          simp
      | ok committedVersion =>
          have hsome : transport.answer inputs 0 = some committedVersion := by
            rw [hanswer, hreply]
          simp only [Drain.attempts, Drain.left, hsome, transport.answer_later]
          let settled : World :=
            { world with
              handed := world.handed ++ [entry.change]
              requests := requests
              store := (world.store.settleAck (.ofEntry entry committedVersion now)).2 }
          obtain ⟨hdraining, hleft⟩ := h.settled hqueue committedVersion now
          obtain ⟨hafter, hrest, hhanded, error, hresult⟩ :=
            @ih _ _ settled hdraining hleft (sent + 1) (inputs.drop (transport.turns + 2))
          refine ⟨?_, hrest.trans ?_, hhanded.trans ?_, error, hresult.trans ?_⟩
          · rw [List.append_cons]
            exact hafter
          · split <;> simp
          · simp [settled]
          · have hcount : ∀ answered, sent + 1 + answered = sent + (answered + 1) := by omega
            simp only [List.countP_cons, Option.isSome_some, if_true, List.length_cons,
              Nat.add_right_cancel_iff, hcount]

end Loop

/-- What the promise of a flush settles with: the number of answers, or, at the first
request that failed, what the policy makes of it. -/
def FlushReplies (config : ClientConfig) (world : World) (round : ErrorPolicy × List Input) :
    Prop :=
  let reply := ((flushQueue config round.1).run round.2 world).1
  let answered := (flushAttempts config world round.2).countP (·.2.isSome)
  match world.refusal .canWrite with
  | some phase => reply = .error (.lifecycle "flush" phase)
  | none => ∃ error, reply = if answered = world.store.queue.length then .ok answered
      else surface error round.1 answered

/-- What one flush does between two others. -/
structure FlushStep (config : ClientConfig) (start : Store)
    (made : List (QueueEntry × Option (Option Hlc))) (world : World)
    (round : ErrorPolicy × List Input) : Prop where
  draining : Draining start (made ++ flushAttempts config world round.2)
    (flushRound config world round).store
  offers : Drain.Round Refuses world.store.queue (flushAttempts config world round.2)
    (flushRound config world round).store.queue
  handed : (flushRound config world round).handed =
    world.handed ++ (flushAttempts config world round.2).map (·.1.change)
  replies : FlushReplies config world round

section Rounds

variable {config : ClientConfig} {start : Store} {world : World}
  {made : List (QueueEntry × Option (Option Hlc))}

/-- A flush that sends nothing. -/
theorem Draining.idle (h : Draining start made world.store) {round : ErrorPolicy × List Input}
    (hflush : flushRound config world round = world)
    (hnone : flushAttempts config world round.2 = []) (hreplies : FlushReplies config world round) :
    FlushStep config start made world round := by
  refine ⟨?_, ?_, ?_, hreplies⟩
  · rw [hflush, hnone, List.append_nil]
    exact h
  · rw [hflush, hnone]
    exact .idle _ _
  · simp [hflush, hnone]

theorem flushQueue_admitted (config : ClientConfig) (policy : ErrorPolicy)
    (hadmits : world.refusal .canWrite = none) (inputs : List Input) :
    (flushQueue config policy).run inputs world =
      (flushEach config policy 0 world.store.queue).run (inputs.drop 2) world := by
  simp only [flushQueue, requireCapability, act, Prog.call_bind, Prog.ret_bind, Prog.run, perform,
    hadmits, Store.pending, ← List.drop_one, List.drop_drop]

theorem Draining.flushStep (config : ClientConfig) (h : Draining start made world.store)
    (round : ErrorPolicy × List Input) : FlushStep config start made world round := by
  obtain ⟨policy, inputs⟩ := round
  cases hrefusal : world.refusal .canWrite with
  | some phase =>
      have hrun : (flushQueue config policy).run inputs world =
          (.error (.lifecycle "flush" phase), world) := by
        simp only [flushQueue, requireCapability, act, Prog.call_bind, Prog.ret_bind, Prog.run,
          perform, hrefusal, Prog.pure_eq]
      apply h.idle
      · exact congrArg Prod.snd hrun
      · cases hsend : config.send <;> simp [flushAttempts, hrefusal, hsend]
      · simp only [FlushReplies, hrefusal]
        exact congrArg Prod.fst hrun
  | none =>
      have hadmitted := flushQueue_admitted config policy hrefusal inputs
      cases hsend : config.send with
      | none =>
          have hnone : flushAttempts config world inputs = [] := by simp [flushAttempts, hsend]
          have hrun : (flushQueue config policy).run inputs world =
              (if 0 = world.store.queue.length then .ok 0 else surface .noSendTransport policy 0,
                world) := by
            rw [hadmitted]
            cases world.store.queue with
            | nil => rfl
            | cons entry rest =>
                simp [Js.flushEach, flushEach.sendEntry, hsend, Prog.run]
          apply h.idle
          · exact congrArg Prod.snd hrun
          · exact hnone
          · simp only [FlushReplies, hrefusal, hnone]
            exact ⟨.noSendTransport, congrArg Prod.fst hrun⟩
      | some transport =>
          have hmade : flushAttempts config world inputs =
              Drain.attempts world.store.queue (transport.answer (inputs.drop 2)) := by
            simp only [flushAttempts, hsend, hrefusal]
          have hdistinct : world.store.queue.Nodup := h.slots.distinct.of_map
          have hqueue : world.store.queue = [] ++ world.store.queue := rfl
          have hloop := h.flushEach hsend policy hqueue 0 (inputs.drop 2)
          rw [← hadmitted, ← hmade] at hloop
          obtain ⟨hdraining, hleft, hhanded, error, hreply⟩ := hloop
          refine ⟨hdraining, ?_, hhanded, ?_⟩
          · rw [show (flushRound config world (policy, inputs)).store.queue = _ from hleft, hmade]
            exact Drain.round_left _ hdistinct _
          · simp only [FlushReplies, hrefusal]
            refine ⟨error, hreply.trans ?_⟩
            rw [Nat.zero_add]

/-- The flushes of a run, one after another. -/
theorem Draining.rounds (config : ClientConfig) (h : Draining start made world.store)
    (rounds : List (ErrorPolicy × List Input)) :
    Draining start (made ++ allAttempts config world rounds)
        (Run.final (flushRound config) world rounds).store ∧
      Run.Along (flushRound config) (fun world round => ∃ made,
        FlushStep config start made world round) world rounds := by
  induction rounds generalizing made world with
  | nil => exact ⟨by simpa [allAttempts, Drain.log] using h, trivial⟩
  | cons round rounds ih =>
      have hstep := h.flushStep config round
      obtain ⟨hfinal, hrest⟩ := ih hstep.draining
      refine ⟨?_, ⟨made, hstep⟩, hrest⟩
      simpa [allAttempts, Drain.log, List.append_assoc] using hfinal

end Rounds

/-- What the flushes of a client do to what it has queued. -/
structure DrainsSlots (config : ClientConfig) (start : World)
    (rounds : List (ErrorPolicy × List Input)) : Prop where
  handed : Run.Along (flushRound config) (fun world round =>
    (flushRound config world round).handed =
      world.handed ++ (flushAttempts config world round.2).map (·.1.change)) start rounds
  offers : Drain.Rounds Refuses (flushRound config) (·.store.queue)
    (fun world round => flushAttempts config world round.2) start rounds
  whole : Run.Along (flushRound config) (fun world round =>
    config.send.isSome = true → world.refusal .canWrite = none →
      (∀ attempt ∈ flushAttempts config world round.2, attempt.2.isSome = true) →
        (flushAttempts config world round.2).map (·.1) = world.store.queue) start rounds
  replies : Run.Along (flushRound config) (FlushReplies config) start rounds
  neverAgain : (allAttempts config start rounds).Pairwise fun earlier later =>
    Drain.Settles Refuses earlier → later.1.sameRow earlier.1.table earlier.1.id = false
  rows : ∀ key, RowDrained start.store (allAttempts config start rounds)
    (Run.final (flushRound config) start rounds).store key
  drained : (∀ entry ∈ start.store.queue, ∃ attempt ∈ allAttempts config start rounds,
      attempt.1 = entry ∧ Drain.Settles Refuses attempt) →
    (Run.final (flushRound config) start rounds).store.queue = [] ∧
      ∀ key stored, (Run.final (flushRound config) start rounds).store.rows key = some stored →
        stored.rowMeta.dirty = false

/-- Whatever a client did from an empty store on, no server-first write being
acknowledged over a queued one: its next flushes, under any policies and however their
requests are answered, drain what is queued exactly. -/
theorem flushes_drain_the_slots (config : ClientConfig) (start : World) (events : List CallEvent)
    (rounds : List (ErrorPolicy × List Input)) (hempty : start.store.Empty)
    (hsparing : Run.Along (callStep config) (SparingCall config) start events) :
    DrainsSlots config (Run.final (callStep config) start events) rounds := by
  have hrules := hsparing.mono fun world event hevent =>
    (⟨sparingRules_covers hevent.1, by rw [sparingRules_answering]; exact hevent.2⟩ :
      sparingRules.Covers event.1 ∧ (event.1.program config).Heeds
        (Permits (sparingRules.answering (event.1.servesFirst config))) event.2 world)
  obtain ⟨hslots, hmatched⟩ :=
    Rules.run_keeps config sparingRules_keep hempty.slots hempty.matched hrules
  obtain ⟨hfinal, hsteps⟩ := (Draining.begin hslots hmatched).rounds config rounds
  rw [List.nil_append] at hfinal
  have hrounds : Drain.Rounds Refuses (flushRound config) (·.store.queue)
      (fun world round => flushAttempts config world round.2)
      (Run.final (callStep config) start events) rounds :=
    hsteps.mono fun _ _ ⟨_, hstep⟩ => hstep.offers
  refine ⟨hsteps.mono fun _ _ ⟨_, hstep⟩ => hstep.handed, hrounds, ?_,
    hsteps.mono fun _ _ ⟨_, hstep⟩ => hstep.replies, ?_, hfinal.rows, ?_⟩
  · refine hsteps.mono fun world round _ hsend hadmits hall => ?_
    obtain ⟨transport, htransport⟩ := Option.isSome_iff_exists.mp hsend
    simp only [flushAttempts, htransport, hadmits] at hall ⊢
    exact Drain.attempts_all hall
  · refine (hrounds.never_again hslots.distinct.of_map).imp_of_mem ?_
    intro earlier later hearlier hlater hagain hsettles
    by_contra hsame
    exact hagain hsettles (hslots.single _ (hrounds.mem_of_log hlater) _
      (hrounds.mem_of_log hearlier) (by simpa using hsame))
  · intro hall
    have hnone : (Run.final (flushRound config) (Run.final (callStep config) start events)
        rounds).store.queue = [] := hrounds.drained hall
    refine ⟨hnone, fun key stored hstored => ?_⟩
    by_contra hdirty
    obtain ⟨entry, hentry, -⟩ := hfinal.matched.rows key stored hstored (by simpa using hdirty)
    rw [hnone] at hentry
    cases hentry

/-- The edit is refused by a server whose clock is behind, and taken by the next flush. -/
theorem second_flush_drains_edit :
    let edited := Run.final (callStep sendingConfig) emptyReplica [editOffline]
    let behind : Input := { response := .ok (some { wallMs := 0, counter := 0, actor := "" }) }
    let rounds := [(ErrorPolicy.throwOnly, [{}, {}, {}, behind]),
      (ErrorPolicy.throwOnly, [{}, {}, {}, { response := .ok none }])]
    DrainsSlots sendingConfig edited rounds ∧
      (allAttempts sendingConfig edited rounds).map (·.1.seq) = [1, 1] ∧
      (Run.final (flushRound sendingConfig) edited rounds).store.queue = [] := by
  intro edited behind rounds
  have hsparing : Run.Along (callStep sendingConfig) (SparingCall sendingConfig) emptyReplica
      [editOffline] :=
    ⟨⟨by decide, trivial, trivial, trivial, trivial, trivial, rfl, trivial⟩, trivial⟩
  refine ⟨flushes_drain_the_slots sendingConfig emptyReplica [editOffline] rounds
    emptyReplica_empty hsparing, ?_, ?_⟩
  · decide +kernel
  · exact List.eq_nil_of_length_eq_zero (by decide +kernel)

end ZedSync.Js
