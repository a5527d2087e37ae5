import ZedSync.Js.CallStages

/-!
The idempotency keys of one client. A key is minted before the write is queued
or handed to `send`, and nothing in the client's state says meanwhile whose key
it is; which thread minted it is therefore kept beside the state. A retry is
sent under its original key, so a service that drops repeated keys drops exactly
the repeated changes.
-/

namespace ZedSync.Js

open Async

/-- The value of a base-36 digit. -/
def digitValue36 (digit : Char) : Nat :=
  if digit.toNat < 58 then digit.toNat - 48 else digit.toNat - 87

theorem digitValue36_digit36 {value : Nat} (h : value < 36) :
    digitValue36 (digit36 value) = value := by
  have hall : ∀ value : Fin 36, digitValue36 (digit36 value) = value := by decide
  exact hall ⟨value, h⟩

theorem digit36_ne_dash {value : Nat} (h : value < 36) : digit36 value ≠ '-' := by
  have hall : ∀ value : Fin 36, digit36 value ≠ '-' := by decide
  exact hall ⟨value, h⟩

theorem digits36_dash (fuel value : Nat) {written : List Char} (h : '-' ∉ written) :
    '-' ∉ digits36 fuel value written := by
  induction fuel generalizing value written with
  | zero => exact h
  | succ fuel ih =>
      simp only [digits36]
      split
      · rename_i hlt
        rw [List.mem_cons, not_or]
        exact ⟨(digit36_ne_dash hlt).symm, h⟩
      · apply ih
        rw [List.mem_cons, not_or]
        exact ⟨(digit36_ne_dash (Nat.mod_lt _ (by omega))).symm, h⟩

/-- Reading a numeral from the left gives the number back. -/
theorem digits36_value {fuel value : Nat} (written : List Char) (h : value < fuel) :
    (digits36 fuel value written).foldl (fun sum digit => sum * 36 + digitValue36 digit) 0 =
      written.foldl (fun sum digit => sum * 36 + digitValue36 digit) value := by
  induction fuel generalizing value written with
  | zero => omega
  | succ fuel ih =>
      simp only [digits36]
      split
      · rename_i hlt
        rw [List.foldl_cons, digitValue36_digit36 hlt]
        congr 1
        omega
      · rw [ih _ (by omega), List.foldl_cons, digitValue36_digit36 (Nat.mod_lt _ (by omega))]
        congr 1
        omega

theorem toString36_injective {value value' : Nat} (h : toString36 value = toString36 value') :
    value = value' := by
  have hdigits := String.ofList_injective h
  have hread := digits36_value [] (Nat.lt_succ_self value)
  rw [hdigits, digits36_value [] (Nat.lt_succ_self value')] at hread
  exact hread.symm

/-- What follows the last dash, and what precedes it. -/
theorem append_dash_inj {front front' digits digits' : List Char} (h : '-' ∉ digits)
    (h' : '-' ∉ digits') (heq : front ++ '-' :: digits = front' ++ '-' :: digits') :
    front = front' ∧ digits = digits' := by
  have hshort : ∀ {middle digits digits' : List Char}, '-' ∉ digits →
      '-' :: digits = middle ++ '-' :: digits' → middle = [] := by
    intro middle digits digits' hfree hsplit
    cases middle with
    | nil => rfl
    | cons first rest =>
        obtain ⟨-, rfl⟩ := List.cons_eq_cons.mp hsplit
        simp at hfree
  rcases List.append_eq_append_iff.mp heq with ⟨middle, rfl, hsplit⟩ | ⟨middle, rfl, hsplit⟩
  · obtain rfl := hshort h hsplit
    simpa using hsplit
  · obtain rfl := hshort h' hsplit
    simpa using hsplit.symm

/-- A key determines the actor, the reading and the sequence number it was made
of, whatever dashes the actor has. -/
theorem nextKey_inj {actor actor' : String} {now seq now' seq' : Nat}
    (h : nextKey actor now seq = nextKey actor' now' seq') :
    actor = actor' ∧ now = now' ∧ seq = seq' := by
  have hdash : ∀ value, '-' ∉ (toString36 value).toList := by
    intro value
    simpa [toString36] using digits36_dash (value + 1) value List.not_mem_nil
  have hchars := congrArg String.toList h
  have hsplit : (actor.toList ++ '-' :: (toString36 now).toList) ++
      '-' :: (toString36 seq).toList = (actor'.toList ++ '-' :: (toString36 now').toList) ++
      '-' :: (toString36 seq').toList := by
    simpa [nextKey] using hchars
  obtain ⟨hfront, hseq⟩ := append_dash_inj (hdash seq) (hdash seq') hsplit
  obtain ⟨hactor, hnow⟩ := append_dash_inj (hdash now) (hdash now') hfront
  exact ⟨String.toList_injective hactor, toString36_injective (String.toList_injective hnow),
    toString36_injective (String.toList_injective hseq)⟩

/-- The change an action puts a key on: it goes into the queue, or on its way. -/
def Action.keys (world : World) : Action → Option ChangeEvent
  | .enqueue write => some (write.atSeq 0).change
  | .handOff change | .fetch change => some change
  | .handOffEntry entry => some (world.store.deref entry).change
  | _ => none

/-- The changes of a client that have a key: every one queued, handed to `send`
or requested of the service so far. -/
def World.keyed (world : World) : List ChangeEvent :=
  world.queued.map (fun write => (write.atSeq 0).change) ++ world.handed ++
    world.requests.map (·.change)

/-- No two different changes have one key. -/
def KeysIdentify (changes : List ChangeEvent) : Prop :=
  ∀ a ∈ changes, ∀ b ∈ changes, a.writeKey = b.writeKey → a = b

/-- The key of the change is the actor's, minted before the instant. -/
def MintedBefore (actor : String) (instant : Nat) (change : ChangeEvent) : Prop :=
  ∃ now seq, change.writeKey = some (nextKey actor now seq) ∧ now < instant

theorem World.SameClient.keyed {before after : World} (h : World.SameClient before after) :
    after.keyed = before.keyed := by
  simp only [World.keyed, h.queued, h.handed, h.requests]

theorem perform_keyed (action : Action) (input : Input) (world : World)
    (change : ChangeEvent) :
    change ∈ (perform action input world).2.keyed ↔
      change ∈ world.keyed ∨ action.keys world = some change := by
  cases action with
  | dispatch _ | lock | renew | afterRenew _ _ | readHandle | stopBegin | releaseLease
  | settled =>
      rw [(Action.ofSession.sameClient (by trivial) input world).keyed]
      simp [Action.keys]
  | enqueue _ | handOff _ | handOffEntry _ | fetch _ =>
      simp only [World.keyed, perform, Action.keys, List.map_append, List.map_cons, List.map_nil,
        List.mem_append, List.mem_singleton, Option.some.injEq, eq_comm]
      tauto
  | _ => simp [World.keyed, perform, Action.keys, World.putRow, World.removeRow, World.settle]

/-- What the store holds after an action, it held before or was just given. -/
theorem perform_holds {action : Action} (hclient : ¬ action.ofSession) (input : Input)
    (world : World) {entry : QueueEntry}
    (h : (perform action input world).2.store.Holds entry) :
    world.store.Holds entry ∨ action.keys world = some entry.change := by
  cases action with
  | enqueue write =>
      rcases world.store.enqueue_holds write entry h with hold | hnew
      · exact Or.inl hold
      · refine Or.inr ?_
        rw [← hnew]
        rfl
  | retire seq => exact Or.inl (world.store.retire_holds seq entry h)
  | settleAck options => exact Or.inl (world.store.settleAck_holds options entry h)
  | settleEntry settled committedVersion =>
      exact Or.inl (world.store.settleAck_holds _ entry h)
  | dispatch _ | lock | renew | afterRenew _ _ | readHandle | stopBegin | releaseLease
  | settled => exact absurd trivial hclient
  | _ => exact Or.inl h

/-- An action that neither mints a key nor starts the key counter again. -/
def Action.KeepsCounter : Action → Prop
  | .nextKey | .newClient true => False
  | action => ¬ action.ofSession

theorem Action.KeepsCounter.client {action : Action} (h : action.KeepsCounter) :
    ¬ action.ofSession := by
  cases action <;> first | exact h | exact id

theorem perform_keySeq {action : Action} (h : action.KeepsCounter) (input : Input)
    (world : World) : (perform action input world).2.keySeq = world.keySeq := by
  cases action with
  | nextKey => exact h.elim
  | newClient newProcess =>
      cases newProcess with
      | true => exact h.elim
      | false => rfl
  | dispatch _ | lock | renew | afterRenew _ _ | readHandle | stopBegin | releaseLease
  | settled => exact absurd trivial h
  | _ => rfl

theorem perform_actor {action : Action} (hclient : ¬ action.ofSession) (input : Input)
    (world : World) : (perform action input world).2.clock.actor = world.clock.actor := by
  cases action with
  | dispatch _ | lock | renew | afterRenew _ _ | readHandle | stopBegin | releaseLease
  | settled => exact absurd trivial hclient
  | observe remote => exact observe_actor _ _ _
  | tick table id => exact tick_actor _ _
  | _ => rfl

def Action.mintsKey : Action → Bool
  | .nextKey => true
  | _ => false

theorem mintsKey_iff {action : Action} : action.mintsKey = true ↔ action = .nextKey := by
  cases action <;> simp [Action.mintsKey]

/-- A key is minted at a reading from the start of the process to its end. -/
def MintsWithin (startMs endMs : Nat) (action : Action) (input : Input) (_ : World) : Prop :=
  action.mintsKey = true → startMs ≤ input.now ∧ input.now < endMs

instance (startMs endMs : Nat) (action : Action) (input : Input) (world : World) :
    Decidable (MintsWithin startMs endMs action input world) :=
  inferInstanceAs (Decidable (_ → _))

namespace WriteKeys

/-- Which thread minted a key. -/
abbrev Owners := String → Option Nat

/-- A process of a device, from one instant to another. -/
structure Era where
  actor : String
  startMs : Nat
  endMs : Nat

/-- What every action keeps: the keys identify their changes, and each was minted
by a thread at a count now passed, or before the process started. -/
structure Inv (era : Era) (state : World × Owners) : Prop where
  device : state.1.clock.actor = era.actor
  stored : ∀ entry, state.1.store.Holds entry → entry.change ∈ state.1.keyed
  identify : KeysIdentify state.1.keyed
  owned : ∀ key thread, state.2 key = some thread →
    ∃ now seq, key = nextKey era.actor now seq ∧ now < era.endMs ∧ seq < state.1.keySeq
  minted : ∀ change ∈ state.1.keyed,
    (∃ key thread, change.writeKey = some key ∧ state.2 key = some thread) ∨
      MintedBefore era.actor era.startMs change

/-- A move that puts no change under the keys of the threads it spares. -/
structure Moves (era : Era) (spares : Nat → Prop) (before after : World × Owners) :
    Prop where
  inv : Inv era after
  keyed : before.1.keyed ⊆ after.1.keyed
  owners : ∀ key thread, before.2 key = some thread → after.2 key = some thread
  spared : ∀ key thread, before.2 key = some thread → spares thread →
    ∀ change ∈ after.1.keyed, change.writeKey = some key → change ∈ before.1.keyed

/-- The thread minted the key, and nothing has it yet. -/
def Held (thread : Nat) (key : String) (state : World × Owners) : Prop :=
  state.2 key = some thread ∧ ∀ change ∈ state.1.keyed, change.writeKey ≠ some key

/-- An action keeps the invariant when what it puts a key on has it already, or
gets one its own thread holds. -/
theorem moves_perform {era : Era} (thread : Nat) {state : World × Owners} {action : Action}
    (hinv : Inv era state) (hcounter : action.KeepsCounter)
    (hkeys : ∀ change, action.keys state.1 = some change → change ∈ state.1.keyed ∨
      ∃ key, change.writeKey = some key ∧ Held thread key state)
    (input : Input) :
    Moves era (· ≠ thread) state ((perform action input state.1).2, state.2) := by
  have hclient := hcounter.client
  have hbefore : ∀ change ∈ state.1.keyed, change ∈ (perform action input state.1).2.keyed :=
    fun change h => (perform_keyed action input state.1 change).mpr (Or.inl h)
  -- A change is new only under a key the thread held.
  have hafter : ∀ change ∈ (perform action input state.1).2.keyed, change ∈ state.1.keyed ∨
      action.keys state.1 = some change ∧
        ∃ key, change.writeKey = some key ∧ Held thread key state := by
    intro change h
    rcases (perform_keyed action input state.1 change).mp h with hold | hnew
    · exact Or.inl hold
    · exact (hkeys change hnew).imp_right fun hheld => ⟨hnew, hheld⟩
  refine ⟨⟨?_, ?_, ?_, ?_, ?_⟩, hbefore, fun _ _ h => h, ?_⟩
  · exact (perform_actor hclient input state.1).trans hinv.device
  · intro entry hentry
    rw [perform_keyed]
    exact (perform_holds hclient input state.1 hentry).imp_left (hinv.stored entry)
  · intro a ha b hb hkey
    rcases hafter a ha with ha | ⟨hanew, key, hakey, -, hunused⟩
    · rcases hafter b hb with hb | ⟨-, key, hbkey, -, hunused⟩
      · exact hinv.identify a ha b hb hkey
      · exact absurd (hkey.trans hbkey) (hunused a ha)
    · rcases hafter b hb with hb | ⟨hbnew, -⟩
      · exact absurd (hkey.symm.trans hakey) (hunused b hb)
      · exact Option.some.inj (hanew.symm.trans hbnew)
  · intro key owner howner
    rw [perform_keySeq hcounter]
    exact hinv.owned key owner howner
  · intro change hchange
    rcases hafter change hchange with hold | ⟨-, key, hkey, howner, -⟩
    · exact hinv.minted change hold
    · exact Or.inl ⟨key, thread, hkey, howner⟩
  · intro key owner howner hother change hchange hkey
    rcases hafter change hchange with hold | ⟨-, held, hheld, hmine, -⟩
    · exact hold
    · obtain rfl : held = key := Option.some.inj (hheld.symm.trans hkey)
      exact absurd (Option.some.inj (howner.symm.trans hmine)) hother

/-- A minted key is its thread's. -/
def mark (thread : Nat) : Action → Input → World → Owners → Owners
  | .nextKey, input, world, owners => fun key =>
      if key = nextKey world.clock.actor input.now world.keySeq then some thread else owners key
  | _, _, _, owners => owners

/-- A thread that mints a key comes to hold it. -/
theorem moves_nextKey {era : Era} (thread : Nat) {state : World × Owners} (hinv : Inv era state)
    {input : Input} (hstart : era.startMs ≤ input.now) (hend : input.now < era.endMs) :
    Moves era (· ≠ thread) state (moved (I := session) mark thread .nextKey input state) ∧
      Held thread (perform .nextKey input state.1).1
        (moved (I := session) mark thread .nextKey input state) := by
  obtain ⟨world, owners⟩ := state
  have hactor : world.clock.actor = era.actor := hinv.device
  simp only [moved, perform, mark, hactor]
  -- The count is not passed yet, so the key is nobody's, and no change has it.
  have hfree : ∀ key owner, owners key = some owner →
      key ≠ nextKey era.actor input.now world.keySeq := by
    rintro key owner howner rfl
    obtain ⟨now, seq, hsame, -, hlt⟩ := hinv.owned _ owner howner
    obtain ⟨-, -, rfl⟩ := nextKey_inj hsame
    exact lt_irrefl _ hlt
  have hunused : ∀ change ∈ world.keyed,
      change.writeKey ≠ some (nextKey era.actor input.now world.keySeq) := by
    intro change hchange hkey
    rcases hinv.minted change hchange with ⟨key, owner, hkeyed, howner⟩ | ⟨now, seq, hkeyed, hlt⟩
    · exact hfree key owner howner (Option.some.inj (hkeyed.symm.trans hkey))
    · obtain ⟨-, rfl, -⟩ := nextKey_inj (Option.some.inj (hkeyed.symm.trans hkey))
      exact absurd hstart (not_le.mpr hlt)
  have hkept : ∀ key owner, owners key = some owner →
      (if key = nextKey era.actor input.now world.keySeq then some thread else owners key) =
        some owner :=
    fun key owner howner => (if_neg (hfree key owner howner)).trans howner
  refine ⟨⟨⟨hactor, hinv.stored, hinv.identify, ?_, ?_⟩, fun _ h => h, hkept,
    fun _ _ _ _ _ h _ => h⟩, if_pos rfl, hunused⟩
  · intro key owner howner
    by_cases hkey : key = nextKey era.actor input.now world.keySeq
    · exact ⟨input.now, world.keySeq, hkey, hend, Nat.lt_succ_self _⟩
    · obtain ⟨now, seq, hsame, hbefore, hlt⟩ :=
        hinv.owned key owner ((if_neg hkey).symm.trans howner)
      exact ⟨now, seq, hsame, hbefore, Nat.lt_succ_of_lt hlt⟩
  · intro change hchange
    rcases hinv.minted change hchange with ⟨key, owner, hkey, howner⟩ | hbefore
    · exact Or.inl ⟨key, owner, hkey, hkept key owner howner⟩
    · exact Or.inr hbefore

/-- What a call knows at a stage: a key it holds is its own, and what it queued,
sent or read has its key. -/
structure Knows (thread : Nat) (stage : CallStage) (state : World × Owners) : Prop where
  held : ∀ key, stage.held = some key → Held thread key state
  own : ∀ change, stage.own = some change → change ∈ state.1.keyed
  sent : ∀ change, stage.sent = some change → change ∈ state.1.keyed
  listed : ∀ entry ∈ stage.listed, entry.change ∈ state.1.keyed

variable {era : Era} {thread : Nat} {stage after : CallStage} {state later : World × Owners}

/-- The others spare what a call knows. -/
theorem Knows.spared (h : Knows thread stage state) {spares : Nat → Prop}
    (hmoves : Moves era spares state later) (hspares : spares thread) :
    Knows thread stage later := by
  refine ⟨fun key hkey => ?_, fun change hchange => hmoves.keyed (h.own change hchange),
    fun change hchange => hmoves.keyed (h.sent change hchange),
    fun entry hentry => hmoves.keyed (h.listed entry hentry)⟩
  obtain ⟨howner, hunused⟩ := h.held key hkey
  refine ⟨hmoves.owners key thread howner, fun change hchange hsame => ?_⟩
  exact hunused change (hmoves.spared key thread howner hspares change hchange hsame) hsame

/-- An entry the call read has a key, whatever the entry reads as now. -/
theorem Knows.current (h : Knows thread stage state) (hinv : Inv era state) {entry : QueueEntry}
    (hentry : entry ∈ stage.listed) : (state.1.store.deref entry).change ∈ state.1.keyed := by
  rcases state.1.store.deref_holds entry with hholds | hsame
  · exact hinv.stored _ hholds
  · rw [hsame]
    exact h.listed entry hentry

/-- What an action puts a key on has it already, or gets the one the call holds. -/
theorem Knows.keys (h : Knows thread stage state) (hinv : Inv era state) {action : Action}
    {reply : action.Reply} (hnext : stage.Next action reply after) :
    ∀ change, action.keys state.1 = some change → change ∈ state.1.keyed ∨
      ∃ key, stage.held = some key ∧ change.writeKey = some key := by
  intro change hchange
  cases action with
  | enqueue write =>
      obtain rfl := Option.some.inj hchange
      exact Or.inr ⟨write.key, hnext.1, rfl⟩
  | handOff sent =>
      obtain rfl := Option.some.inj hchange
      rcases hnext with ⟨hown, -⟩ | ⟨key, hheld, hkey, -⟩
      · exact Or.inl (h.own sent hown)
      · exact Or.inr ⟨key, hheld, hkey⟩
  | handOffEntry entry =>
      obtain rfl := Option.some.inj hchange
      exact Or.inl (h.current hinv hnext.1)
  | fetch sent =>
      obtain rfl := Option.some.inj hchange
      exact Or.inl (h.sent sent hnext.1)
  | _ => cases hchange

theorem keepsCounter {action : Action} {reply : action.Reply}
    (hnext : stage.Next action reply after) (hmints : action.mintsKey = false) :
    action.KeepsCounter := by
  cases action with
  | nextKey => cases hmints
  | newClient newProcess =>
      cases newProcess with
      | true => exact hnext.elim
      | false => exact id
  | dispatch _ | lock | renew | afterRenew _ _ | readHandle | stopBegin | releaseLease
  | settled => exact hnext.elim
  | _ => exact id

theorem mark_eq {action : Action} (hmints : action.mintsKey = false) (input : Input)
    (world : World) (owners : Owners) : mark thread action input world owners = owners := by
  cases action <;> first | rfl | cases hmints

/-- The move of one action, as the others see it. -/
theorem Knows.moves (h : Knows thread stage state) (hinv : Inv era state) {action : Action}
    {input : Input} (hmints : MintsWithin era.startMs era.endMs action input state.1)
    (hnext : stage.Next action (perform action input state.1).1 after) :
    Moves era (· ≠ thread) state (moved (I := session) mark thread action input state) := by
  cases hkind : action.mintsKey with
  | true =>
      obtain rfl := mintsKey_iff.mp hkind
      exact (moves_nextKey thread hinv (hmints rfl).1 (hmints rfl).2).1
  | false =>
      rw [moved, mark_eq hkind]
      refine moves_perform thread hinv (keepsCounter hnext hkind) (fun change hchange => ?_) input
      exact (h.keys hinv hnext change hchange).imp_right fun ⟨key, hheld, hkey⟩ =>
        ⟨key, hkey, h.held key hheld⟩

/-- An action that puts no new key on anything leaves a call what it knows. -/
theorem Knows.kept (h : Knows thread stage state) {action : Action} {input : Input}
    (hmints : action.mintsKey = false)
    (hkeys : ∀ change, action.keys state.1 = some change → change ∈ state.1.keyed) :
    Knows thread stage (moved (I := session) mark thread action input state) := by
  have hkeyed : ∀ change,
      change ∈ (perform action input state.1).2.keyed ↔ change ∈ state.1.keyed :=
    fun change => (perform_keyed action input state.1 change).trans
      (or_iff_left_of_imp (hkeys change))
  rw [moved, mark_eq hmints]
  refine ⟨fun key hkey => ?_, fun change hchange => (hkeyed change).mpr (h.own change hchange),
    fun change hchange => (hkeyed change).mpr (h.sent change hchange),
    fun entry hentry => (hkeyed entry.change).mpr (h.listed entry hentry)⟩
  obtain ⟨howner, hunused⟩ := h.held key hkey
  exact ⟨howner, fun change hchange => hunused change ((hkeyed change).mp hchange)⟩

/-- What an action teaches its call. -/
theorem Knows.learns (h : Knows thread stage state) (hinv : Inv era state) {action : Action}
    {input : Input} (hmints : MintsWithin era.startMs era.endMs action input state.1)
    (hnext : stage.Next action (perform action input state.1).1 after) :
    Knows thread after (moved (I := session) mark thread action input state) := by
  have hmoves := h.moves hinv hmints hnext
  have hown : ∀ change, stage.own = some change →
      change ∈ (perform action input state.1).2.keyed :=
    fun change hchange => hmoves.keyed (h.own change hchange)
  have hsent : ∀ change, stage.sent = some change →
      change ∈ (perform action input state.1).2.keyed :=
    fun change hchange => hmoves.keyed (h.sent change hchange)
  have hlisted : ∀ entry ∈ stage.listed,
      entry.change ∈ (perform action input state.1).2.keyed :=
    fun entry hentry => hmoves.keyed (h.listed entry hentry)
  have hkeyed : ∀ change, action.keys state.1 = some change →
      change ∈ (perform action input state.1).2.keyed :=
    fun change hchange => (perform_keyed action input state.1 change).mpr (Or.inr hchange)
  cases action with
  | nextKey =>
      obtain rfl := hnext
      refine ⟨?_, hown, hsent, hlisted⟩
      rintro key ⟨⟩
      exact (moves_nextKey thread hinv (hmints rfl).1 (hmints rfl).2).2
  | enqueue write =>
      obtain ⟨-, rfl⟩ := hnext
      refine ⟨nofun, ?_, hsent, hlisted⟩
      rintro change ⟨⟩
      exact hkeyed _ rfl
  | handOff change =>
      rcases hnext with ⟨hmine, rfl⟩ | ⟨key, -, -, rfl⟩
      · have hkept : Knows thread stage (moved (I := session) mark thread (.handOff change) input
            state) := h.kept rfl fun other hother => Option.some.inj hother ▸ h.own change hmine
        refine ⟨hkept.held, hown, ?_, hlisted⟩
        rintro other ⟨⟩
        exact hkeyed _ rfl
      · refine ⟨nofun, hown, ?_, hlisted⟩
        rintro other ⟨⟩
        exact hkeyed _ rfl
  | handOffEntry entry =>
      obtain ⟨hentry, rfl⟩ := hnext
      have hkept : Knows thread stage (moved (I := session) mark thread (.handOffEntry entry) input
          state) :=
        h.kept rfl fun other hother => Option.some.inj hother ▸ h.current hinv hentry
      refine ⟨hkept.held, hown, ?_, hlisted⟩
      rintro other ⟨⟩
      exact hkeyed _ rfl
  | fetch change =>
      obtain ⟨hlast, rfl⟩ := hnext
      exact h.kept rfl fun other hother => Option.some.inj hother ▸ h.sent change hlast
  | response =>
      obtain rfl := hnext
      have hkept : Knows thread stage (moved (I := session) mark thread .response input state) :=
        h.kept rfl nofun
      exact ⟨hkept.held, hkept.own, hkept.sent, hkept.listed⟩
  | pending =>
      obtain rfl := hnext
      have hkept : Knows thread stage (moved (I := session) mark thread .pending input state) :=
        h.kept rfl nofun
      refine ⟨hkept.held, hown, hsent, fun entry hentry => hmoves.keyed ?_⟩
      exact hinv.stored entry (Or.inl hentry)
  | _ =>
      obtain rfl := CallStage.next_same hnext rfl
      exact h.kept rfl nofun

/-- Two threads hold different keys, and a minted key is new. -/
def upkeep (era : Era) :
    Upkeep session CallStage Owners fun _ _ => MintsWithin era.startMs era.endMs where
  next := CallStage.Next
  mark := mark
  Inv := Inv era
  Knows := Knows
  own hinv hknows hmints hnext :=
    ⟨(hknows.moves hinv hmints hnext).inv, hknows.learns hinv hmints hnext⟩
  others hinv hknows hmints hnext _ _ hother hseen :=
    hseen.spared (hknows.moves hinv hmints hnext) hother

end WriteKeys

open WriteKeys

/-- The state a process finds: what its store holds has its key, and the keys,
all minted before the start, identify their changes. -/
structure Starts (instant : Nat) (world : World) : Prop where
  stored : ∀ entry, world.store.Holds entry → entry.change ∈ world.keyed
  identify : KeysIdentify world.keyed
  minted : ∀ change ∈ world.keyed, MintedBefore world.clock.actor instant change

theorem Starts.inv {era : Era} {world : World} (h : Starts era.startMs world)
    (hactor : world.clock.actor = era.actor) : Inv era (world, fun _ => none) := by
  refine ⟨hactor, h.stored, h.identify, ?_, fun change hchange => Or.inr ?_⟩
  · intro key thread hnone
    cases hnone
  · exact hactor ▸ h.minted change hchange

theorem WriteKeys.Inv.starts {era : Era} {state : World × Owners} (h : Inv era state)
    (horder : era.startMs ≤ era.endMs) : Starts era.endMs state.1 := by
  refine ⟨h.stored, h.identify, fun change hchange => ?_⟩
  rw [h.device]
  rcases h.minted change hchange with ⟨key, thread, hkey, howner⟩ | ⟨now, seq, hkey, hlt⟩
  · obtain ⟨now, seq, rfl, hlt, -⟩ := h.owned key thread howner
    exact ⟨now, seq, hkey, hlt⟩
  · exact ⟨now, seq, hkey, hlt.trans_le horder⟩

/-- In any interleaving of calls on the clients of one process, every key stands
for one change: a change queued, sent or retried under it is the same change. -/
theorem process_keeps_keys (config : ClientConfig) (calls : List Call) (world : World)
    (startMs endMs : Nat) (schedule : List (Pool.Turn session)) (horder : startMs ≤ endMs)
    (hcalls : ∀ call ∈ calls, call ≠ .newClient true) (hstart : Starts startMs world) :
    let pool : Pool session (Outcome CallResult) :=
      { world := world, threads := calls.map (Call.program config) }
    pool.Heeds (MintsWithin startMs endMs) schedule →
      Starts endMs (pool.run schedule).world ∧
        (pool.run schedule).world.clock.actor = world.clock.actor := by
  intro pool hheeds
  let era : Era := { actor := world.clock.actor, startMs := startMs, endMs := endMs }
  have hinv : Inv era (world, fun _ => none) := hstart.inv rfl
  have hkept : Pool.Kept (upkeep era) pool fun _ => none := by
    refine ⟨hinv, fun i program hprogram => ?_⟩
    obtain ⟨call, hcall, rfl⟩ := by simpa [pool] using hprogram
    refine ⟨{}, CallStage.leads_call config (hcalls call (List.mem_of_getElem? hcall)), ?_⟩
    exact ⟨nofun, nofun, nofun, nofun⟩
  have hlast := (hkept.run (hheeds.watched _ _)).inv
  exact ⟨hlast.starts horder, hlast.device⟩

end ZedSync.Js
