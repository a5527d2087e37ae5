import ZedSync.Js.Fencing
import ZedSync.Postgres.Fence

/-!
The fenced write path end to end: any number of instances of one actor (`startSync` with a
lease, `sdk/src/start.mjs`) over the durable store they share, the lock service that grants
them the flusher lease, requests that arrive late, twice or never, and the service that serves
each in a transaction which calls `zed_sync.assert_fence` (`postgres/zed_sync.sql`) with the
lease headers of the request. A request without these has nothing to assert. The responses an
instance gets are those of its own model: any, at any time.
-/

namespace ZedSync

open Js (HttpRequest ClientConfig StartOptions SessionThread Store Input session
  leasedSession startedWorld)
open Js.Fencing (SessionInv Fenced)
open Async
open Postgres (FenceTable)

namespace Flushers

/-- How an instance is started. -/
structure Launch where
  config : ClientConfig
  options : StartOptions
  threads : List SessionThread
  clock : Clock
  keySeq : Nat
  renewFailureLimit : Nat

/-- A request as it reaches the service, and the instance it is from. -/
structure Sent where
  instanceId : Nat
  request : HttpRequest

/-- The token a request is fenced with; zero where it carries no lease headers. -/
def Sent.token (sent : Sent) : Nat := (sent.request.fence.map Prod.snd).getD 0

/-- The shared store, the instances, the latest token of the lock service, the fence row with
the transactions of the service, the request each of them serves, and the requests whose
writes were committed, in their order. -/
structure State where
  store : Store
  instances : List (Pool session Unit)
  issued : Nat := 0
  fence : FenceTable ChangeEvent := {}
  serving : Nat → Option Sent := fun _ => none
  committed : List Sent := []

inductive Event where
  /-- A turn of a thread of an instance. A grant is given as how far it is ahead. -/
  | turn (instanceId thread : Nat) (input : Input)
  /-- The service begins a transaction for one of the requests an instance has issued. -/
  | serve (tx instanceId index : Nat)
  | assertFence (tx : Nat) (holder : Option String) (now : Int)
  | commit (tx : Nat)
  | abort (tx : Nat)

/-- The lock service: every grant has a larger token than any before it. -/
def issue (issued : Nat) (input : Input) : Input × Nat :=
  match input.grant with
  | none => (input, issued)
  | some (ahead, leaseExpiresMs) =>
      ({ input with grant := some (issued + ahead + 1, leaseExpiresMs) }, issued + ahead + 1)

/-- An instance as it finds the shared store. -/
def sharing (store : Store) (pool : Pool session Unit) : Pool session Unit :=
  { pool with world := { pool.world with store := store } }

def start (leaseKey : String) (store : Store) (launched : List Launch) : State :=
  { store := store
    instances := launched.map fun launch =>
      leasedSession launch.config launch.options launch.threads
        (startedWorld store launch.clock launch.keySeq leaseKey launch.renewFailureLimit) }

def step (leaseKey : String) (state : State) : Event → State
  | .turn instanceId thread input =>
      match state.instances[instanceId]? with
      | none => state
      | some pool =>
          let (granted, issued) := issue state.issued input
          let moved := (sharing state.store pool).step (thread, granted)
          { state with
            instances := state.instances.set instanceId moved
            store := moved.world.store
            issued := issued }
  | .serve tx instanceId index =>
      match state.serving tx, state.instances[instanceId]?.bind (·.world.requests[index]?) with
      | none, some request =>
          { state with
            serving := Function.update state.serving tx
              (some { instanceId := instanceId, request := request })
            fence := state.fence.write tx request.change }
      | _, _ => state
  | .assertFence tx holder now =>
      match (state.serving tx).bind (·.request.fence) with
      | none => state
      | some (_, token) =>
          { state with fence := state.fence.assertFence leaseKey tx token holder now }
  | .commit tx =>
      match state.serving tx with
      | none => state
      | some sent =>
          match sent.request.fence, state.fence.phase tx with
          | none, .running =>
              { state with
                fence := state.fence.setPhase tx .committed
                committed := state.committed ++ [sent] }
          | some _, .fenced _ =>
              { state with
                fence := state.fence.commit tx
                committed := state.committed ++ [sent] }
          | _, _ => { state with fence := state.fence.commit tx }
  | .abort tx => { state with fence := state.fence.abort tx }

/-- No instance issues a request after its lifecycle stopped admitting writes, and no transport
throws as a lease is lost. -/
def Authorized (state : State) : Event → Prop
  | .turn instanceId thread input =>
      ∀ pool ∈ state.instances[instanceId]?, (sharing state.store pool).Takes
        Js.Fencing.Authorized (thread, (issue state.issued input).1)
  | .serve _ _ _ | .assertFence _ _ _ | .commit _ | .abort _ => True

instance (state : State) : ∀ event : Event, Decidable (Authorized state event)
  | .turn _ thread input =>
      have : DecidablePred fun pool : Pool session Unit => (sharing state.store pool).Takes
          Js.Fencing.Authorized (thread, (issue state.issued input).1) := fun _ => inferInstance
      Option.decidableForallMem _
  | .serve _ _ _ | .assertFence _ _ _ | .commit _ | .abort _ => inferInstanceAs (Decidable True)

section World

open Js (World Action perform)

/-- No action takes a request back. -/
theorem requests_perform (action : Action) (input : Input) (world : World) :
    world.requests <+: (perform action input world).2.requests := by
  cases action with
  | fetch change => exact List.prefix_append _ _
  | dispatch event => exact (world.dispatch_sameClient event).requests ▸ List.prefix_rfl
  | lock => exact (world.acquire_sameClient input.grant).requests ▸ List.prefix_rfl
  | afterRenew handle sessionToken =>
      exact (world.afterRenew_sameClient handle sessionToken input).requests ▸ List.prefix_rfl
  | stopBegin => exact (world.stopBegin_sameClient input).requests ▸ List.prefix_rfl
  | _ => exact List.prefix_rfl

theorem granted_markLost (world : World) (sessionToken : Nat) (transportsStop : Bool) :
    (world.markLost sessionToken transportsStop).granted = world.granted := by
  unfold World.markLost
  dsimp only
  split
  · exact (Js.Fencing.dispatch_lease _ _).2
  · rfl

/-- An instance's grants grow by the one the lock service answers with. -/
theorem granted_perform (action : Action) (input : Input) (world : World) :
    (perform action input world).2.granted = world.granted ∨
      ∃ grant, input.grant = some grant ∧
        (perform action input world).2.granted = world.granted ++ [grant.1] := by
  cases action with
  | lock =>
      cases hgrant : input.grant with
      | none =>
          left
          simp [perform, World.acquire, hgrant]
      | some grant =>
          right
          exact ⟨grant, rfl, by simp [perform, World.acquire, hgrant]⟩
  | dispatch event => exact Or.inl (Js.Fencing.dispatch_lease world event).2
  | afterRenew handle sessionToken =>
      left
      rcases Js.Fencing.afterRenew_cases world handle sessionToken input with
        hsame | ⟨lease, failures, -, hkept⟩ | hlost
      · exact congrArg World.granted hsame
      · change (world.afterRenew handle sessionToken input).2.granted = _
        rw [hkept]
        rfl
      · exact (congrArg World.granted hlost).trans (granted_markLost _ _ _)
  | stopBegin =>
      left
      rcases Js.Fencing.stopBegin_cases world input with
        hsame | ⟨snapshot, stopping, -, hstopping, hcases⟩
      · exact congrArg World.granted hsame
      · have hgranted : stopping.granted = world.granted := by
          rw [hstopping]
          exact (Js.Fencing.dispatch_lease world _).2
        rcases hcases with hsame | ⟨-, base, rfl | rfl, hsame⟩
        · exact (congrArg World.granted hsame).trans hgranted
        · exact (congrArg World.granted hsame).trans hgranted
        · exact (congrArg World.granted hsame).trans hgranted
  | _ => exact Or.inl rfl

/-- What a turn of an instance does to its requests and its grants. -/
theorem step_world (pool : Pool session Unit) (turn : Pool.Turn session) :
    pool.world.requests <+: (pool.step turn).world.requests ∧
      ((pool.step turn).world.granted = pool.world.granted ∨
        ∃ grant, turn.2.grant = some grant ∧
          (pool.step turn).world.granted = pool.world.granted ++ [grant.1]) := by
  rcases Pool.step_cases pool turn with hidle | ⟨action, next, -, hstep⟩
  · rw [hidle]
    exact ⟨List.prefix_rfl, Or.inl rfl⟩
  · rw [hstep]
    exact ⟨requests_perform action turn.2 pool.world, granted_perform action turn.2 pool.world⟩

variable {leaseKey : String}

/-- Nothing the fence of an instance rests on is in the store. -/
theorem sessionInv_sharing {pool : Pool session Unit} (h : SessionInv leaseKey pool)
    (store : Store) : SessionInv leaseKey (sharing store pool) := by
  obtain ⟨program, hprogram, hstartup⟩ := h.startup
  refine ⟨⟨h.world.lifecycle, h.world.lease, h.world.fenced⟩, ⟨program, hprogram, ?_⟩, h.beside⟩
  cases hstartup with
  | waiting next hrunning hgranted hrefused => exact .waiting next hrunning hgranted hrefused
  | failing _ hrunning honly => exact .failing program hrunning honly
  | holding _ hheld honly => exact .holding program hheld honly

theorem sessionInv_leased (launch : Launch) (store : Store) :
    SessionInv leaseKey (leasedSession launch.config launch.options launch.threads
      (startedWorld store launch.clock launch.keySeq leaseKey launch.renewFailureLimit)) := by
  refine ⟨Js.Fencing.started_inv _ _ _ _ _, ⟨_, rfl, ?_⟩, ?_⟩
  · exact Js.Fencing.startSync_waiting (Js.Fencing.started_not_running _ _ _ _ _) _ _ rfl
  · intro i program hprogram hne
    obtain ⟨i, rfl⟩ := Nat.exists_eq_succ_of_ne_zero hne
    obtain ⟨thread, -, rfl⟩ := by simpa [leasedSession] using hprogram
    exact Js.Fencing.thread_only launch.config thread

end World

section Table

variable {W : Type} {table : FenceTable W} {tx other : Nat} {row : Postgres.FenceRow}

/-- Only its own accepted call fences a transaction, with the token it asserts. -/
theorem fenced_of_assertFence {leaseKey : String} {token : Int} {holder : Option String}
    {now : Int}
    (h : (table.assertFence leaseKey tx token holder now).phase other = .fenced row) :
    table.phase other = .fenced row ∨ other = tx ∧ row.fencingToken = token := by
  unfold FenceTable.assertFence at h
  split at h
  · split at h
    · rename_i error _
      by_cases hsame : other = tx
      · simp [FenceTable.setPhase, hsame] at h
      · exact Or.inl (by simpa [FenceTable.setPhase, hsame] using h)
    · rename_i proposed hproposed
      split at h
      · obtain ⟨htoken, ⟨-, hok⟩ | ⟨seen, -, -, herror⟩⟩ :=
          Postgres.assertFence_cases hproposed table.fence
        · rw [hok] at h
          by_cases hsame : other = tx
          · obtain rfl : proposed = row := by simpa [FenceTable.setPhase, hsame] using h
            exact Or.inr ⟨hsame, htoken⟩
          · exact Or.inl (by simpa [FenceTable.setPhase, hsame] using h)
        · rw [herror] at h
          by_cases hsame : other = tx
          · simp [FenceTable.setPhase, hsame] at h
          · exact Or.inl (by simpa [FenceTable.setPhase, hsame] using h)
      · exact Or.inl h
  · exact Or.inl h

theorem published_assertFence (leaseKey : String) (token : Int) (holder : Option String)
    (now : Int) : (table.assertFence leaseKey tx token holder now).lock.published =
      table.lock.published := by
  unfold FenceTable.assertFence
  split
  · split
    · rfl
    · split
      · split
        · simp
        · simp
      · rfl
  · rfl

theorem fenced_of_abort (h : (table.abort tx).phase other = .fenced row) :
    table.phase other = .fenced row := by
  unfold FenceTable.abort at h
  split at h
  · exact h
  · exact h
  · by_cases hsame : other = tx
    · simp [FenceTable.setPhase, hsame] at h
    · simpa [FenceTable.setPhase, hsame] using h

theorem published_abort : (table.abort tx).lock.published = table.lock.published := by
  unfold FenceTable.abort
  split
  · rfl
  · rfl
  · simp

theorem fenced_of_commit (h : (table.commit tx).phase other = .fenced row) :
    table.phase other = .fenced row := by
  unfold FenceTable.commit at h
  split at h
  · by_cases hsame : other = tx
    · simp [FenceTable.setPhase, hsame] at h
    · simpa [FenceTable.setPhase, hsame] using h
  · exact fenced_of_abort h
  · exact h

/-- A fenced transaction publishes its row with its commit, any other one nothing. -/
theorem published_commit_fenced (h : table.Inv) (hphase : table.phase tx = .fenced row) :
    (table.commit tx).lock.published = table.lock.published ++ [{ tx := tx, row := row }] := by
  obtain ⟨hholder, hpending⟩ := h.fenced tx row hphase
  simp only [FenceTable.commit, hphase, FenceTable.setPhase_lock, LockedLog.published_release,
    LockedLog.published_publish hholder, hpending]

theorem published_commit_other (hphase : ∀ row, table.phase tx ≠ .fenced row) :
    (table.commit tx).lock.published = table.lock.published := by
  unfold FenceTable.commit
  split
  · rename_i row hfenced
    exact absurd hfenced (hphase row)
  · exact published_abort
  · rfl

end Table

/-- Every instance is fenced, the requests served and committed are theirs, a transaction is
fenced with the token of its request, and no two instances have a token in common. -/
structure Inv (leaseKey : String) (state : State) : Prop where
  instances : ∀ pool ∈ state.instances, SessionInv leaseKey pool
  table : state.fence.Inv
  served : ∀ tx sent, state.serving tx = some sent →
    ∃ pool, state.instances[sent.instanceId]? = some pool ∧ sent.request ∈ pool.world.requests
  known : ∀ sent ∈ state.committed,
    ∃ pool, state.instances[sent.instanceId]? = some pool ∧ sent.request ∈ pool.world.requests
  fenced : ∀ tx row, state.fence.phase tx = .fenced row →
    ∃ sent, state.serving tx = some sent ∧ row.fencingToken = sent.token
  committed : state.committed.map (fun sent => (sent.token : Int)) =
    state.fence.lock.published.map (·.row.fencingToken)
  issued : ∀ pool ∈ state.instances, ∀ token ∈ pool.world.granted, token ≤ state.issued
  apart : ∀ (i j : Nat) (one other : Pool session Unit), i ≠ j →
    state.instances[i]? = some one → state.instances[j]? = some other →
      ∀ token ∈ one.world.granted, token ∉ other.world.granted

section Steps

variable {leaseKey : String} {state : State}

theorem inv_start (store : Store) (launched : List Launch) :
    Inv leaseKey (start leaseKey store launched) := by
  have hinstances : ∀ pool ∈ (start leaseKey store launched).instances,
      ∃ launch : Launch, pool = leasedSession launch.config launch.options launch.threads
        (startedWorld store launch.clock launch.keySeq leaseKey launch.renewFailureLimit) := by
    intro pool hpool
    obtain ⟨launch, -, rfl⟩ := List.mem_map.mp hpool
    exact ⟨launch, rfl⟩
  refine ⟨?_, FenceTable.inv_empty, ?_, ?_, ?_, rfl, ?_, ?_⟩
  · intro pool hpool
    obtain ⟨launch, rfl⟩ := hinstances pool hpool
    exact sessionInv_leased launch store
  · rintro tx sent ⟨⟩
  · rintro sent ⟨⟩
  · rintro tx row ⟨⟩
  · intro pool hpool token htoken
    obtain ⟨launch, rfl⟩ := hinstances pool hpool
    cases htoken
  · intro i j one other _ hone _ token htoken
    obtain ⟨launch, rfl⟩ := hinstances one (List.mem_of_getElem? hone)
    cases htoken

theorem getElem?_set_cases {α : Type} {items : List α} {i j : Nat} {item found : α}
    (h : (items.set i item)[j]? = some found) :
    j = i ∧ found = item ∨ j ≠ i ∧ items[j]? = some found := by
  by_cases hsame : j = i
  · subst hsame
    have hlt : j < items.length := by
      have hlength := (List.getElem?_eq_some_iff.mp h).1
      rwa [List.length_set] at hlength
    rw [List.getElem?_set_self hlt] at h
    exact Or.inl ⟨rfl, (Option.some.inj h).symm⟩
  · rw [List.getElem?_set_ne (Ne.symm hsame)] at h
    exact Or.inr ⟨hsame, h⟩

/-- A grant is ahead of every token before it. -/
theorem issue_ahead (issued : Nat) (input : Input) :
    issued ≤ (issue issued input).2 ∧
      ∀ grant, (issue issued input).1.grant = some grant →
        issued < grant.1 ∧ grant.1 ≤ (issue issued input).2 := by
  unfold issue
  split
  · rename_i hnone
    refine ⟨Nat.le_refl _, ?_⟩
    intro grant hgrant
    rw [hnone] at hgrant
    cases hgrant
  · refine ⟨by dsimp only; omega, ?_⟩
    rintro grant ⟨⟩
    dsimp only
    omega

section Turn

variable {instanceId : Nat} {pool moved : Pool session Unit}

/-- A request stays known while its instance moves on. -/
theorem known_moved {instances : List (Pool session Unit)}
    (hpool : instances[instanceId]? = some pool)
    (hrequests : pool.world.requests <+: moved.world.requests) {sent : Sent}
    (hsent : ∃ pool, instances[sent.instanceId]? = some pool ∧
      sent.request ∈ pool.world.requests) :
    ∃ pool, (instances.set instanceId moved)[sent.instanceId]? = some pool ∧
      sent.request ∈ pool.world.requests := by
  obtain ⟨found, hfound, hrequest⟩ := hsent
  by_cases hsame : sent.instanceId = instanceId
  · rw [hsame] at hfound ⊢
    obtain rfl := Option.some.inj (hpool.symm.trans hfound)
    refine ⟨moved, ?_, hrequests.subset hrequest⟩
    exact List.getElem?_set_self (List.getElem?_eq_some_iff.mp hpool).1
  · exact ⟨found, by rw [List.getElem?_set_ne (Ne.symm hsame), hfound], hrequest⟩

/-- A token granted in the turn is ahead of those of the other instances. -/
theorem Inv.apart_moved (h : Inv leaseKey state)
    (hpool : state.instances[instanceId]? = some pool)
    (hnew : ∀ token ∈ moved.world.granted,
      token ∈ pool.world.granted ∨ state.issued < token)
    {i j : Nat} {one other : Pool session Unit} (hne : i ≠ j)
    (hone : (state.instances.set instanceId moved)[i]? = some one)
    (hother : (state.instances.set instanceId moved)[j]? = some other) {token : Nat}
    (htoken : token ∈ one.world.granted) : token ∉ other.world.granted := by
  intro hshared
  have hbound (found : Pool session Unit) (k : Nat) (hfound : state.instances[k]? = some found)
      (hmem : token ∈ found.world.granted) : token ≤ state.issued :=
    h.issued found (List.mem_of_getElem? hfound) token hmem
  rcases getElem?_set_cases hone with ⟨rfl, rfl⟩ | ⟨-, hbefore⟩
  · rcases getElem?_set_cases hother with ⟨rfl, -⟩ | ⟨-, hother⟩
    · exact hne rfl
    · rcases hnew token htoken with hold | hgrant
      · exact h.apart i j pool other hne hpool hother token hold hshared
      · have hle := hbound other j hother hshared
        omega
  · rcases getElem?_set_cases hother with ⟨rfl, rfl⟩ | ⟨-, hother⟩
    · rcases hnew token hshared with hold | hgrant
      · exact h.apart i j one pool hne hbefore hpool token htoken hold
      · have hle := hbound one i hbefore htoken
        omega
    · exact h.apart i j one other hne hbefore hother token htoken hshared

end Turn

/-- A turn of an instance. -/
theorem Inv.turn (h : Inv leaseKey state) (instanceId thread : Nat) (input : Input)
    (hauthorized : Authorized state (.turn instanceId thread input)) :
    Inv leaseKey (step leaseKey state (.turn instanceId thread input)) := by
  dsimp only [step]
  cases hpool : state.instances[instanceId]? with
  | none => exact h
  | some pool =>
      have hmem := List.mem_of_getElem? hpool
      have hturn := hauthorized pool hpool
      obtain ⟨hle, hahead⟩ := issue_ahead state.issued input
      have hinv := (sessionInv_sharing (h.instances pool hmem) state.store).step hturn
      obtain ⟨hrequests, hgranted⟩ :=
        step_world (sharing state.store pool) (thread, (issue state.issued input).1)
      dsimp only
      generalize (sharing state.store pool).step (thread, (issue state.issued input).1) = moved
        at hinv hrequests hgranted
      have hnew : ∀ token ∈ moved.world.granted,
          token ∈ pool.world.granted ∨
            state.issued < token ∧ token ≤ (issue state.issued input).2 := by
        intro token htoken
        rcases hgranted with hsame | ⟨grant, hgrant, hgrown⟩
        · rw [hsame] at htoken
          exact Or.inl htoken
        · rw [hgrown] at htoken
          rcases List.mem_append.mp htoken with hbefore | hlast
          · exact Or.inl hbefore
          · rw [List.mem_singleton.mp hlast]
            exact Or.inr (hahead grant hgrant)
      refine ⟨?_, h.table, ?_, ?_, h.fenced, h.committed, ?_, ?_⟩
      · intro found hfound
        rcases List.mem_or_eq_of_mem_set hfound with hbefore | rfl
        · exact h.instances found hbefore
        · exact hinv
      · intro tx sent hsent
        exact known_moved hpool hrequests (h.served tx sent hsent)
      · intro sent hsent
        exact known_moved hpool hrequests (h.known sent hsent)
      · intro found hfound token htoken
        rcases List.mem_or_eq_of_mem_set hfound with hbefore | rfl
        · exact (h.issued found hbefore token htoken).trans hle
        · rcases hnew token htoken with hbefore | hgrant
          · exact (h.issued pool hmem token hbefore).trans hle
          · exact hgrant.2
      · intro i j one other hne hone hother token htoken
        exact h.apart_moved hpool (fun token hmem => (hnew token hmem).imp_right And.left) hne hone
          hother htoken

/-- The service begins a transaction. -/
theorem Inv.serve (h : Inv leaseKey state) (tx instanceId index : Nat) :
    Inv leaseKey (step leaseKey state (.serve tx instanceId index)) := by
  dsimp only [step]
  split
  · rename_i request hnone hrequest
    have hphase : (state.fence.write tx request.change).phase = state.fence.phase := by
      unfold FenceTable.write
      split <;> rfl
    have hlock : (state.fence.write tx request.change).lock = state.fence.lock := by
      unfold FenceTable.write
      split <;> rfl
    refine ⟨h.instances, h.table.write _, ?_, h.known, ?_, ?_, h.issued, h.apart⟩
    · intro other sent hsent
      by_cases hsame : other = tx
      · obtain rfl : _ = sent := by simpa [Function.update, hsame] using hsent
        obtain ⟨pool, hpool, hfound⟩ := Option.bind_eq_some_iff.mp hrequest
        exact ⟨pool, hpool, List.mem_of_getElem? hfound⟩
      · exact h.served other sent (by simpa [Function.update, hsame] using hsent)
    · intro other row hfenced
      dsimp only at hfenced ⊢
      rw [hphase] at hfenced
      obtain ⟨sent, hsent, htoken⟩ := h.fenced other row hfenced
      have hne : other ≠ tx := by
        rintro rfl
        rw [hnone] at hsent
        cases hsent
      exact ⟨sent, by simpa [Function.update, hne] using hsent, htoken⟩
    · dsimp only
      rw [hlock]
      exact h.committed
  · exact h

theorem Inv.assertFence (h : Inv leaseKey state) (tx : Nat) (holder : Option String)
    (now : Int) : Inv leaseKey (step leaseKey state (.assertFence tx holder now)) := by
  dsimp only [step]
  split
  · exact h
  · rename_i key token hfence
    obtain ⟨sent, hsent, hrequest⟩ := Option.bind_eq_some_iff.mp hfence
    refine ⟨h.instances, h.table.assertFence _ _ _ _, h.served, h.known, ?_, ?_, h.issued,
      h.apart⟩
    · intro other row hfenced
      rcases fenced_of_assertFence hfenced with hbefore | ⟨rfl, htoken⟩
      · exact h.fenced other row hbefore
      · exact ⟨sent, hsent, by simpa [Sent.token, hrequest] using htoken⟩
    · dsimp only
      rw [published_assertFence]
      exact h.committed

theorem Inv.abort (h : Inv leaseKey state) (tx : Nat) :
    Inv leaseKey (step leaseKey state (.abort tx)) := by
  refine ⟨h.instances, h.table.abort, h.served, h.known, ?_, ?_, h.issued, h.apart⟩
  · intro other row hfenced
    exact h.fenced other row (fenced_of_abort hfenced)
  · change _ = (state.fence.abort tx).lock.published.map _
    rw [published_abort]
    exact h.committed

/-- Every request carries the lease key and a token of its instance. -/
theorem Inv.sent_fenced (h : Inv leaseKey state) {sent : Sent} {pool : Pool session Unit}
    (hpool : state.instances[sent.instanceId]? = some pool)
    (hrequest : sent.request ∈ pool.world.requests) :
    Fenced leaseKey pool.world.granted sent.request :=
  (h.instances pool (List.mem_of_getElem? hpool)).world.fenced sent.request hrequest

theorem Inv.commit (h : Inv leaseKey state) (tx : Nat) :
    Inv leaseKey (step leaseKey state (.commit tx)) := by
  dsimp only [step]
  cases hserving : state.serving tx with
  | none => exact h
  | some sent =>
      obtain ⟨pool, hpool, hrequest⟩ := h.served tx sent hserving
      obtain ⟨-, token, -, hfence⟩ := h.sent_fenced hpool hrequest
      have hfenced : ∀ other row, (state.fence.commit tx).phase other = .fenced row →
          ∃ sent, state.serving other = some sent ∧ row.fencingToken = sent.token :=
        fun other row hafter => h.fenced other row (fenced_of_commit hafter)
      simp only [hfence]
      cases hphase : state.fence.phase tx with
      | fenced row =>
          dsimp only
          refine ⟨h.instances, h.table.commit, h.served, ?_, hfenced, ?_, h.issued, h.apart⟩
          · intro found hfound
            rcases List.mem_append.mp hfound with hbefore | hlast
            · exact h.known found hbefore
            · rw [List.mem_singleton.mp hlast]
              exact ⟨pool, hpool, hrequest⟩
          · obtain ⟨asserted, hasserted, htoken⟩ := h.fenced tx row hphase
            obtain rfl := Option.some.inj (hserving.symm.trans hasserted)
            dsimp only
            rw [published_commit_fenced h.table hphase, List.map_append, List.map_append,
              h.committed]
            simp [htoken]
      | running | failed error | committed | aborted =>
          dsimp only
          refine ⟨h.instances, h.table.commit, h.served, h.known, hfenced, ?_, h.issued, h.apart⟩
          dsimp only
          rw [published_commit_other (by simp [hphase])]
          exact h.committed

theorem Inv.step (h : Inv leaseKey state) (event : Event) (hauthorized : Authorized state event) :
    Inv leaseKey (Flushers.step leaseKey state event) := by
  cases event with
  | turn instanceId thread input => exact h.turn instanceId thread input hauthorized
  | serve tx instanceId index => exact h.serve tx instanceId index
  | assertFence tx holder now => exact h.assertFence tx holder now
  | commit tx => exact h.commit tx
  | abort tx => exact h.abort tx

end Steps

/-- In every run of any number of instances, the lock service and the service behind them, in
which no instance issues a request after its lifecycle closed: whatever is committed was sent
under a grant of its instance, no two instances share a token, and the writes are committed in
the order of the grants. However late its requests arrive, an instance that was superseded
commits nothing after its successor. -/
theorem commits_follow_grants (leaseKey : String) (store : Store) (launched : List Launch)
    (events : List Event)
    (hauthorized : Run.Along (step leaseKey) Authorized (start leaseKey store launched) events) :
    let state := Run.final (step leaseKey) (start leaseKey store launched) events
    (∀ sent ∈ state.committed, ∃ pool, state.instances[sent.instanceId]? = some pool ∧
      Fenced leaseKey pool.world.granted sent.request) ∧
    (∀ (i j : Nat) (one other : Pool session Unit), i ≠ j → state.instances[i]? = some one →
      state.instances[j]? = some other → ∀ token ∈ one.world.granted,
        token ∉ other.world.granted) ∧
    state.committed.Pairwise (·.token ≤ ·.token) := by
  intro state
  have h : Inv leaseKey state :=
    Run.induction (fun _ event hinv => hinv.step event) (inv_start store launched) hauthorized
  refine ⟨?_, h.apart, ?_⟩
  · intro sent hsent
    obtain ⟨pool, hpool, hrequest⟩ := h.known sent hsent
    exact ⟨pool, hpool, h.sent_fenced hpool hrequest⟩
  · have hsorted : (state.committed.map fun sent => (sent.token : Int)).Pairwise (· ≤ ·) := by
      rw [h.committed]
      exact List.pairwise_map.mpr h.table.ordered.published
    exact (List.pairwise_map.mp hsorted).imp Int.ofNat_le.mp

/-- An instance that writes one note. -/
def noteWriter (actor : String) : Launch :=
  { config := { send := some (.backend true) }
    options := { leased := true }
    threads := [.call (.write "notes" "n1" (some (.str "a")) {})]
    clock := Clock.fresh actor
    keySeq := 0
    renewFailureLimit := 3 }

/-- The instance is granted the lease, and its write gets as far as its request. -/
def writeSent (instanceId : Nat) : List Event :=
  List.replicate 4 (.turn instanceId 0 { grant := some (0, none) }) ++
    List.replicate 9 (.turn instanceId 1 { now := 5 })

/-- The service serves the first request of the instance in one transaction. -/
def served (tx instanceId : Nat) : List Event :=
  [.serve tx instanceId 0, .assertFence tx none 0, .commit tx]

/-- A request of the first instance commits, then one of its successor, and the first one's
is refused when it arrives again. -/
theorem late_request_is_refused :
    let leaseKey := "zed-sync/flusher/zed-sync/device-1"
    let launched := [noteWriter "device-1", noteWriter "device-1"]
    let state := Run.final (step leaseKey) (start leaseKey {} launched)
      (writeSent 0 ++ writeSent 1 ++ served 0 0 ++ served 1 1 ++ served 2 0)
    state.committed.map (·.instanceId) = [0, 1] ∧
      state.committed.Pairwise (·.token ≤ ·.token) :=
  ⟨by decide, (commits_follow_grants _ _ _ _ (by decide)).2.2⟩

end Flushers

end ZedSync
