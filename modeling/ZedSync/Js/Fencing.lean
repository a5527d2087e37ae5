import ZedSync.Js.Start

/-!
The fence of a leased session. `write` and `flushQueue` ask for `canWrite` once,
at their entry, and the sender reads the fence later, after the token and once
for each queued entry. The lease may be lost or released in between, and then a
request goes out with no fence. None does while the lifecycle still admits
writes at the request itself, and no transport throws as the lease is lost.
-/

namespace ZedSync.Js

open Async

namespace Fencing

def Phased (P : AppLifecycleSnapshot → Prop) (world : World) : Prop :=
  ∃ snapshot, world.lifecycle = some snapshot ∧ P snapshot

/-- The request carries the lease key and a token granted to this session, and
went out while the lease was held. -/
def Fenced (leaseKey : String) (granted : List Nat) (request : HttpRequest) : Prop :=
  request.held = true ∧ ∃ token ∈ granted, request.fence = some (leaseKey, token)

/-- A session serves under its first token, its lease is the one it was given,
any handle was granted, and every request so far was fenced. -/
structure Inv (leaseKey : String) (world : World) : Prop where
  lifecycle : Phased (fun snapshot => Serving snapshot →
    snapshot.generation = firstToken ∧ snapshot.activeToken = some firstToken) world
  lease : ∃ lease, world.lease = some lease ∧ lease.key = leaseKey ∧
    ∀ handle, lease.handle = some handle → handle.fencingToken ∈ world.granted
  fenced : ∀ request ∈ world.requests, Fenced leaseKey world.granted request

def HeldWhileServing (world : World) : Prop := Phased Serving world → world.held = true

variable {leaseKey : String}

theorem phased_dispatch {world : World} {event : LifecycleEvent}
    {P : AppLifecycleSnapshot → Prop} (h : Phased P (world.dispatch event).2) :
    ∃ snapshot, world.lifecycle = some snapshot ∧ P (dispatch snapshot event).1 := by
  obtain ⟨after, hafter, hP⟩ := h
  cases hlifecycle : world.lifecycle with
  | none => simp [World.dispatch, hlifecycle] at hafter
  | some snapshot =>
      simp only [World.dispatch, hlifecycle, Option.some.injEq] at hafter
      exact ⟨snapshot, rfl, hafter ▸ hP⟩

theorem dispatch_serving {world : World} {event : LifecycleEvent}
    (hevent : event ≠ .startRequested) (h : Phased Serving (world.dispatch event).2) :
    Phased Serving world := by
  obtain ⟨snapshot, hsnapshot, hserving⟩ := phased_dispatch h
  exact ⟨snapshot, hsnapshot, ((dispatch_transition _ _).serving hevent hserving).1⟩

theorem dispatch_running {world : World} {event : LifecycleEvent}
    (hevent : ∀ token, event ≠ .startSucceeded token)
    (h : Phased Running (world.dispatch event).2) : Phased Running world := by
  obtain ⟨snapshot, hsnapshot, hrunning⟩ := phased_dispatch h
  exact ⟨snapshot, hsnapshot, (dispatch_transition _ _).running hevent hrunning⟩

/-- Only the lifecycle changes. -/
theorem dispatch_lease (world : World) (event : LifecycleEvent) :
    (world.dispatch event).2.lease = world.lease ∧
      (world.dispatch event).2.granted = world.granted := by
  unfold World.dispatch
  split <;> exact ⟨rfl, rfl⟩

theorem dispatch_held (world : World) (event : LifecycleEvent) :
    (world.dispatch event).2.held = world.held :=
  congrArg (fun lease => Option.any Lease.held lease) (dispatch_lease world event).1

theorem Inv.dispatch {world : World} (h : Inv leaseKey world) {event : LifecycleEvent}
    (hevent : event ≠ .startRequested) : Inv leaseKey (world.dispatch event).2 := by
  obtain ⟨snapshot, hsnapshot, htoken⟩ := h.lifecycle
  refine ⟨⟨(Js.dispatch snapshot event).1, ?_, fun hserving => ?_⟩, ?_, ?_⟩
  · simp [World.dispatch, hsnapshot]
  · obtain ⟨hbefore, hgeneration, hactive⟩ :=
      (dispatch_transition _ _).serving hevent hserving
    exact ⟨hgeneration.trans (htoken hbefore).1, hactive.trans (htoken hbefore).2⟩
  · rw [(dispatch_lease world event).1, (dispatch_lease world event).2]
    exact h.lease
  · rw [(dispatch_lease world event).2, (world.dispatch_sameClient event).requests]
    exact h.fenced

theorem Inv.setHandle {world : World} (h : Inv leaseKey world) {handle : Option Handle}
    (failures : Nat)
    (hgranted : ∀ held, handle = some held → held.fencingToken ∈ world.granted) :
    Inv leaseKey (world.setHandle handle failures) := by
  obtain ⟨lease, hlease, hkey, _⟩ := h.lease
  refine ⟨h.lifecycle, ⟨{ lease with handle := handle, failures := failures }, ?_, hkey, ?_⟩,
    h.fenced⟩
  · simp [World.setHandle, hlease]
  · exact hgranted

theorem Inv.dropHandle {world : World} (h : Inv leaseKey world) :
    Inv leaseKey (world.setHandle none 0) :=
  h.setHandle 0 fun _ hnone => by cases hnone

/-- The lease as it is found, under any number of failures. -/
theorem Inv.keepHandle {world : World} (h : Inv leaseKey world) {lease : Lease}
    (hlease : world.lease = some lease) (failures : Nat) :
    Inv leaseKey (world.setHandle lease.handle failures) := by
  obtain ⟨found, hfound, _, hgranted⟩ := h.lease
  obtain rfl : found = lease := Option.some.inj (hfound.symm.trans hlease)
  exact h.setHandle failures hgranted

theorem keepHandle_held {world : World} {lease : Lease} (hlease : world.lease = some lease)
    (failures : Nat) : (world.setHandle lease.handle failures).held = world.held := by
  simp [World.setHandle, World.held, Lease.held, hlease]

theorem Inv.acquire {world : World} (h : Inv leaseKey world) (grant : Option (Nat × Option Nat)) :
    Inv leaseKey (world.acquire grant).2 := by
  cases grant with
  | none => exact h
  | some grant =>
      obtain ⟨lease, hlease, hkey, _⟩ := h.lease
      let handle : Handle :=
        { serial := world.granted.length, fencingToken := grant.1, leaseExpiresMs := grant.2 }
      refine ⟨h.lifecycle, ⟨{ lease with handle := some handle, failures := 0 }, ?_, hkey, ?_⟩, ?_⟩
      · simp [World.acquire, World.setHandle, hlease, handle]
      · rintro found ⟨rfl⟩
        simp [World.acquire, handle]
      · intro request hrequest
        obtain ⟨hheld, token, htoken, hfence⟩ := h.fenced request hrequest
        exact ⟨hheld, token, List.mem_append_left _ htoken, hfence⟩

theorem Inv.markLost {world : World} (h : Inv leaseKey world) (sessionToken : Nat)
    (transportsStop : Bool) : Inv leaseKey (world.markLost sessionToken transportsStop) := by
  unfold World.markLost
  dsimp only
  split
  · exact h.dropHandle.dispatch (by simp)
  · exact h.dropHandle

/-- Once the failure is published the session serves no more. -/
theorem Inv.markLost_closes {world : World} (h : Inv leaseKey world) :
    ¬ Phased Serving (world.markLost firstToken true) := by
  intro hserving
  obtain ⟨snapshot, hsnapshot, hafter⟩ := phased_dispatch (by simpa [World.markLost] using hserving)
  obtain ⟨found, hfound, htoken⟩ := h.lifecycle
  obtain rfl : found = snapshot := Option.some.inj (hfound.symm.trans hsnapshot)
  have hbefore := ((dispatch_transition _ _).serving (by simp) hafter).1
  obtain ⟨hgeneration, hactive⟩ := htoken hbefore
  exact runtimeFailed_closes (by simp [hgeneration, firstToken, maxSafeInteger])
    (by decide) (by decide) hactive hafter

theorem stopEvent_cases (phase : AppPhase) :
    World.stopEvent phase = .stopRequested ∨ World.stopEvent phase = .reconcileRequested := by
  unfold World.stopEvent
  split
  · exact Or.inr rfl
  · exact Or.inl rfl

theorem stopEvent_ne (phase : AppPhase) : World.stopEvent phase ≠ .startRequested := by
  rcases stopEvent_cases phase with h | h <;> simp [h]

/-- What `stop` does before its first `await`: it joins, or is refused, or it
closes the session. -/
theorem stopBegin_cases (world : World) (input : Input) :
    (world.stopBegin input).2 = world ∨
    ∃ snapshot stopping, world.lifecycle = some snapshot ∧
      stopping = (world.dispatch (World.stopEvent snapshot.phase)).2 ∧
      ((world.stopBegin input).2 = stopping ∨
        ¬ Phased Serving stopping ∧
          ∃ base, (base = stopping ∨ base = stopping.setHandle none 0) ∧
            (world.stopBegin input).2 = { base with stopCalled := true }) := by
  unfold World.stopBegin
  split
  · exact Or.inl rfl
  · rename_i snapshot hsnapshot
    split
    · exact Or.inl rfl
    · refine Or.inr ⟨snapshot, _, hsnapshot, rfl, ?_⟩
      dsimp only
      split
      · exact Or.inl rfl
      · split
        · exact Or.inl rfl
        · rename_i happlied
          have hclosed : ¬ Phased Serving
              (world.dispatch (World.stopEvent snapshot.phase)).2 := by
            intro hserving
            obtain ⟨found, hfound, hafter⟩ := phased_dispatch hserving
            obtain rfl : found = snapshot := Option.some.inj (hfound.symm.trans hsnapshot)
            refine stop_closes (stopEvent_cases _) ?_ hafter
            simpa [World.dispatch, hfound] using happlied
          split
          · exact Or.inr ⟨hclosed, _, Or.inr rfl, rfl⟩
          · exact Or.inr ⟨hclosed, _, Or.inl rfl, rfl⟩

/-- The actions that leave the session, its lease and its requests alone. -/
theorem perform_aside {action : Action} (hsession : ¬ action.ofSession)
    (hfetch : ∀ change, action ≠ .fetch change) (input : Input) (world : World) :
    (perform action input world).2.lifecycle = world.lifecycle ∧
      (perform action input world).2.lease = world.lease ∧
      (perform action input world).2.granted = world.granted ∧
      (perform action input world).2.requests = world.requests := by
  cases action with
  | fetch change => exact absurd rfl (hfetch change)
  | dispatch _ | lock | renew | afterRenew _ _ | readHandle | stopBegin | releaseLease
  | settled => exact absurd trivial hsession
  | _ => exact ⟨rfl, rfl, rfl, rfl⟩

/-- No second start, and a lost lease is reported under the token of the session. -/
def OfOneStart : Action → Prop
  | .dispatch event => event ≠ .startRequested
  | .afterRenew _ sessionToken => sessionToken = firstToken
  | _ => True

/-- Neither a grant nor a release: while the session serves, its lease is lost
by `afterRenew` and `stop` alone. -/
def KeepsLease (action : Action) : Prop :=
  OfOneStart action ∧ action ≠ .lock ∧ action ≠ .releaseLease

/-- The start does not succeed here. -/
def Withholds (action : Action) : Prop :=
  OfOneStart action ∧ ∀ token, action ≠ .dispatch (.startSucceeded token)

/-- What the threads beside the startup do. -/
def Beside (action : Action) : Prop := KeepsLease action ∧ Withholds action

theorem Inv.aside {world later : World} (h : Inv leaseKey world)
    (haside : later.lifecycle = world.lifecycle ∧ later.lease = world.lease ∧
      later.granted = world.granted ∧ later.requests = world.requests) :
    Inv leaseKey later := by
  obtain ⟨hlifecycle, hlease, hgranted, hrequests⟩ := haside
  refine ⟨?_, ?_, ?_⟩
  · simpa [Phased, hlifecycle] using h.lifecycle
  · rw [hlease, hgranted]
    exact h.lease
  · rw [hgranted, hrequests]
    exact h.fenced

/-- A request issued while the lease is held is fenced. -/
theorem Inv.fetch {world : World} (h : Inv leaseKey world) (change : ChangeEvent)
    (hheld : world.held = true) (input : Input) :
    Inv leaseKey (perform (.fetch change) input world).2 := by
  refine ⟨h.lifecycle, h.lease, ?_⟩
  intro request hrequest
  rcases List.mem_append.mp hrequest with hbefore | hissued
  · exact h.fenced request hbefore
  · obtain rfl := List.mem_singleton.mp hissued
    obtain ⟨lease, hlease, hkey, hgranted⟩ := h.lease
    obtain ⟨handle, hhandle⟩ : ∃ handle, lease.handle = some handle := by
      simpa [World.held, hlease, Lease.held, Option.isSome_iff_exists] using hheld
    refine ⟨hheld, handle.fencingToken, hgranted handle hhandle, ?_⟩
    simp [World.getFence, hlease, hhandle, hkey]

theorem Inv.stopBegin {world : World} (h : Inv leaseKey world) (input : Input) :
    Inv leaseKey (world.stopBegin input).2 := by
  rcases stopBegin_cases world input with hsame | ⟨snapshot, stopping, _, hstopping, hcases⟩
  · rwa [hsame]
  · have hinv : Inv leaseKey stopping := by
      rw [hstopping]
      exact h.dispatch (stopEvent_ne _)
    rcases hcases with hsame | ⟨_, base, hbase, hsame⟩
    · rwa [hsame]
    · rw [hsame]
      rcases hbase with rfl | rfl
      · exact hinv.aside ⟨rfl, rfl, rfl, rfl⟩
      · exact hinv.dropHandle.aside ⟨rfl, rfl, rfl, rfl⟩

/-- The heartbeat finds its handle superseded, or keeps it, or loses the lease. -/
theorem afterRenew_cases (world : World) (handle : Handle) (sessionToken : Nat)
    (input : Input) :
    (world.afterRenew handle sessionToken input).2 = world ∨
      (∃ lease failures, world.lease = some lease ∧
        (world.afterRenew handle sessionToken input).2 =
          world.setHandle lease.handle failures) ∨
      (world.afterRenew handle sessionToken input).2 =
        world.markLost sessionToken input.transportsStop := by
  unfold World.afterRenew
  split
  · exact Or.inl rfl
  · rename_i lease hlease
    split
    · exact Or.inl rfl
    · split
      · exact Or.inr (Or.inl ⟨lease, 0, hlease, rfl⟩)
      · dsimp only
        split
        · exact Or.inr (Or.inr rfl)
        · exact Or.inr (Or.inl ⟨lease, _, hlease, rfl⟩)

theorem inv_perform {world : World} {action : Action} (h : Inv leaseKey world)
    (hone : OfOneStart action) (hfetch : ∀ change, action = .fetch change → world.held = true)
    (input : Input) : Inv leaseKey (perform action input world).2 := by
  cases action with
  | fetch change => exact h.fetch change (hfetch change rfl) input
  | dispatch event => exact h.dispatch hone
  | lock => exact h.acquire input.grant
  | releaseLease => exact h.dropHandle
  | stopBegin => exact h.stopBegin input
  | renew | readHandle | settled => exact h
  | afterRenew handle sessionToken =>
      simp only [perform]
      rcases afterRenew_cases world handle sessionToken input with
        hsame | ⟨lease, failures, hlease, hsame⟩ | hlost
      · rwa [hsame]
      · rw [hsame]
        exact h.keepHandle hlease failures
      · rw [hlost]
        exact h.markLost _ _
  | _ => exact h.aside (perform_aside (by simp [Action.ofSession]) (by simp) input world)

theorem stopBegin_heldWhileServing {world : World} (hheld : HeldWhileServing world)
    (input : Input) : HeldWhileServing (world.stopBegin input).2 := by
  rcases stopBegin_cases world input with hsame | ⟨snapshot, stopping, _, hstopping, hcases⟩
  · rwa [hsame]
  · rcases hcases with hsame | ⟨hclosed, base, hbase, hsame⟩
    · intro hserving
      rw [hsame, hstopping] at hserving ⊢
      rw [dispatch_held]
      exact hheld (dispatch_serving (stopEvent_ne _) hserving)
    · intro hserving
      rw [hsame] at hserving
      rcases hbase with rfl | rfl
      · exact absurd hserving hclosed
      · exact absurd hserving hclosed

/-- While the session serves the lease is held: what ends the grant first
closes the session. -/
theorem heldWhileServing_perform {world : World} {action : Action} {input : Input}
    (h : Inv leaseKey world) (hheld : HeldWhileServing world) (hkeeps : KeepsLease action)
    (hstop : ∀ handle sessionToken, action = .afterRenew handle sessionToken →
      input.transportsStop = true) :
    HeldWhileServing (perform action input world).2 := by
  obtain ⟨hone, hlock, hrelease⟩ := hkeeps
  cases action with
  | fetch change => exact hheld
  | dispatch event =>
      intro hserving
      simp only [perform, dispatch_held]
      exact hheld (dispatch_serving hone hserving)
  | lock => exact absurd rfl hlock
  | releaseLease => exact absurd rfl hrelease
  | stopBegin => exact stopBegin_heldWhileServing hheld input
  | renew | readHandle | settled => exact hheld
  | afterRenew handle sessionToken =>
      obtain rfl : sessionToken = firstToken := hone
      simp only [perform]
      rcases afterRenew_cases world handle firstToken input with
        hsame | ⟨lease, failures, hlease, hsame⟩ | hlost
      · rwa [hsame]
      · rw [hsame]
        intro hserving
        rw [keepHandle_held hlease]
        exact hheld hserving
      · rw [hlost, hstop handle firstToken rfl]
        exact fun hserving => absurd hserving h.markLost_closes
  | _ => exact hheld

theorem phased_imp {P Q : AppLifecycleSnapshot → Prop} {world : World}
    (himp : ∀ snapshot, P snapshot → Q snapshot) (h : Phased P world) : Phased Q world := by
  obtain ⟨snapshot, hsnapshot, hP⟩ := h
  exact ⟨snapshot, hsnapshot, himp snapshot hP⟩

theorem stopBegin_running {world : World} {input : Input}
    (hrunning : Phased Running (world.stopBegin input).2) : Phased Running world := by
  rcases stopBegin_cases world input with hsame | ⟨snapshot, stopping, _, hstopping, hcases⟩
  · rwa [hsame] at hrunning
  · have hevent : ∀ token, World.stopEvent snapshot.phase ≠ .startSucceeded token := by
      intro token
      rcases stopEvent_cases snapshot.phase with h | h <;> simp [h]
    rcases hcases with hsame | ⟨hclosed, base, hbase, hsame⟩
    · rw [hsame, hstopping] at hrunning
      exact dispatch_running hevent hrunning
    · rw [hsame] at hrunning
      have hserving : Phased Serving base := phased_imp (fun _ => Or.inr) hrunning
      rcases hbase with rfl | rfl
      · exact absurd hserving hclosed
      · exact absurd hserving hclosed

theorem markLost_running {world : World} {sessionToken : Nat} {transportsStop : Bool}
    (hrunning : Phased Running (world.markLost sessionToken transportsStop)) :
    Phased Running world := by
  unfold World.markLost at hrunning
  dsimp only at hrunning
  split at hrunning
  · have hlost := dispatch_running (by simp) hrunning
    exact hlost
  · exact hrunning

/-- No action but the success of the start makes a session run. -/
theorem running_perform {world : World} {action : Action}
    (hwithholds : ∀ token, action ≠ .dispatch (.startSucceeded token)) (input : Input)
    (hrunning : Phased Running (perform action input world).2) : Phased Running world := by
  cases action with
  | dispatch event =>
      exact dispatch_running (fun token h => hwithholds token (h ▸ rfl)) hrunning
  | lock =>
      cases hgrant : input.grant with
      | none => simpa [perform, World.acquire, hgrant] using hrunning
      | some grant =>
          simpa [perform, World.acquire, hgrant, Phased, World.setHandle] using hrunning
  | stopBegin => exact stopBegin_running hrunning
  | afterRenew handle sessionToken =>
      simp only [perform] at hrunning
      rcases afterRenew_cases world handle sessionToken input with
        hsame | ⟨lease, failures, _, hsame⟩ | hlost
      · rwa [hsame] at hrunning
      · rw [hsame] at hrunning
        exact hrunning
      · rw [hlost] at hrunning
        exact markLost_running hrunning
  | _ => exact hrunning

theorem beside_of_client {action : Action} (h : ¬ action.ofSession) : Beside action := by
  cases action <;>
    first
    | exact absurd trivial h
    | exact ⟨⟨trivial, by simp, by simp⟩, trivial, by simp⟩

theorem thread_only (config : ClientConfig) (thread : SessionThread) :
    (thread.program config).Only Beside := by
  have hread : ∀ action : Action, action = .readHandle ∨ action = .renew ∨
      action = .settled → Beside action := by
    rintro action (rfl | rfl | rfl) <;>
      exact ⟨⟨trivial, by simp, by simp⟩, trivial, by simp⟩
  have hdispatch : ∀ event, event ≠ .startRequested → (∀ token, event ≠ .startSucceeded token) →
      Beside (.dispatch event) := by
    intro event hstart hsucceed
    exact ⟨⟨hstart, by simp, by simp⟩, hstart, by simpa using hsucceed⟩
  cases thread with
  | call made =>
      refine Prog.Only.bind ?_ fun _ => trivial
      exact (made.program_client config).mono fun _ => beside_of_client
  | heartbeat beats =>
      unfold SessionThread.program
      dsimp only
      induction beats with
      | zero => trivial
      | succ beats ih =>
          refine ⟨hread _ (by simp), fun found => ?_⟩
          cases found with
          | none => trivial
          | some handle =>
              refine ⟨hread _ (by simp), fun _ => ⟨?_, fun goesOn => ?_⟩⟩
              · exact ⟨⟨rfl, by simp, by simp⟩, rfl, by simp⟩
              · cases goesOn with
                | false => trivial
                | true => exact ih
  | reportTransport online => exact ⟨hdispatch _ (by simp) (by simp), fun _ => trivial⟩
  | stop =>
      refine ⟨⟨⟨trivial, by simp, by simp⟩, trivial, by simp⟩, fun begun => ?_⟩
      cases begun with
      | transportsFailed stopToken => exact ⟨hdispatch _ (by simp) (by simp), fun _ => trivial⟩
      | releasing stopToken =>
          exact ⟨hread _ (by simp), fun _ => ⟨hdispatch _ (by simp) (by simp), fun _ => trivial⟩⟩
      | joined | alreadyStopped | rejected => trivial

theorem hydrateAll_only (config : ClientConfig) (hydrations : List (List ChangeEvent)) :
    (hydrateAll config hydrations).Only Beside := by
  induction hydrations with
  | nil => trivial
  | cons changes rest ih =>
      refine ⟨⟨⟨trivial, by simp, by simp⟩, trivial, by simp⟩, fun _ => ?_⟩
      have hhydrate : (hydrate config changes).Only Beside :=
        (hydrate_putsClean config changes).mono fun _ h => beside_of_client h.client
      exact hhydrate.bind fun _ => ih

theorem startHeld_only (config : ClientConfig) (options : StartOptions) (sessionToken : Nat) :
    (startHeld config options sessionToken).Only KeepsLease := by
  refine ((hydrateAll_only _ _).mono fun _ h => h.1).bind fun _ => ?_
  refine ⟨⟨by simp [OfOneStart], by simp, by simp⟩, fun _ => ?_⟩
  dsimp only
  split
  · have hflush : (flushQueue config .emitOnly).Only KeepsLease :=
      (flushQueue_putsClean config .emitOnly).mono fun _ h => (beside_of_client h.client).1
    exact hflush.bind fun _ => trivial
  · trivial

theorem failStart_only (sessionToken : Nat) : (failStart sessionToken).Only Withholds :=
  ⟨⟨trivial, by simp⟩, fun _ => ⟨⟨trivial, by simp⟩, fun _ =>
    ⟨⟨by simp [OfOneStart], by simp⟩, fun _ => trivial⟩⟩⟩

/-- How far the startup is: it waits for the lease, or its start fails, or it
holds the lease for as long as the session serves. -/
inductive Startup (world : World) : Prog session Unit → Prop
  | waiting (next : Bool → Prog session Unit) (hrunning : ¬ Phased Running world)
      (hgranted : (next true).Only KeepsLease) (hrefused : (next false).Only Withholds) :
      Startup world (.call .lock next)
  | failing (program : Prog session Unit) (hrunning : ¬ Phased Running world)
      (honly : program.Only Withholds) : Startup world program
  | holding (program : Prog session Unit) (hheld : HeldWhileServing world)
      (honly : program.Only KeepsLease) : Startup world program

theorem startSync_waiting {world : World} (hrunning : ¬ Phased Running world)
    (config : ClientConfig) (options : StartOptions) (hleased : options.leased = true) :
    Startup world (startSync config options firstToken) := by
  unfold startSync
  rw [if_pos hleased]
  refine .waiting _ hrunning ?_ ?_
  · exact startHeld_only config options firstToken
  · exact failStart_only firstToken

/-- Another thread's action leaves the startup where it is. -/
theorem Startup.beside {world : World} {program : Prog session Unit} {action : Action}
    {input : Input} (h : Startup world program) (hinv : Inv leaseKey world)
    (hbeside : Beside action)
    (hstop : ∀ handle sessionToken, action = .afterRenew handle sessionToken →
      input.transportsStop = true) :
    Startup (perform action input world).2 program := by
  have hrunning : ¬ Phased Running world →
      ¬ Phased Running (perform action input world).2 :=
    fun hbefore hafter => hbefore (running_perform hbeside.2.2 input hafter)
  cases h with
  | waiting next hbefore hgranted hrefused =>
      exact .waiting next (hrunning hbefore) hgranted hrefused
  | failing _ hbefore honly => exact .failing _ (hrunning hbefore) honly
  | holding _ hheld honly =>
      exact .holding _ (heldWhileServing_perform hinv hheld hbeside.1 hstop) honly

theorem Startup.ofOneStart {world : World} {action : Action}
    {next : action.Reply → Prog session Unit} (h : Startup world (.call action next)) :
    OfOneStart action := by
  cases h with
  | waiting => trivial
  | failing _ _ honly => exact honly.1.1
  | holding _ _ honly => exact honly.1.1

/-- The startup's own action, the grant among them. -/
theorem Startup.advance {world : World} {action : Action} {input : Input}
    {next : action.Reply → Prog session Unit} (h : Startup world (.call action next))
    (hinv : Inv leaseKey world)
    (hstop : ∀ handle sessionToken, action = .afterRenew handle sessionToken →
      input.transportsStop = true) :
    Startup (perform action input world).2 (next (perform action input world).1) := by
  cases h with
  | waiting _ hbefore hgranted hrefused =>
      cases hgrant : input.grant with
      | none =>
          simp only [perform, World.acquire, hgrant]
          exact .failing _ hbefore hrefused
      | some grant =>
          obtain ⟨lease, hlease, _⟩ := hinv.lease
          simp only [perform, World.acquire, hgrant]
          refine .holding _ (fun _ => ?_) hgranted
          simp [World.held, World.setHandle, hlease, Lease.held]
  | failing _ hbefore honly =>
      refine .failing _ (fun hafter => hbefore ?_) (honly.2 _)
      exact running_perform honly.1.2 input hafter
  | holding _ hheld honly =>
      exact .holding _ (heldWhileServing_perform hinv hheld honly.1 hstop) (honly.2 _)

/-- While the lifecycle admits writes the lease is held. -/
theorem Startup.held {world : World} {program : Prog session Unit}
    (h : Startup world program) (hinv : Inv leaseKey world)
    (hadmits : world.refusal .canWrite = none) : world.held = true := by
  obtain ⟨snapshot, hsnapshot, _⟩ := hinv.lifecycle
  have hrunning : Phased Running world := by
    refine ⟨snapshot, hsnapshot, canWrite_running ?_⟩
    by_contra hclosed
    simp [World.refusal, hsnapshot, Capability.read, hclosed] at hadmits
  cases h with
  | waiting _ hbefore => exact absurd hrunning hbefore
  | failing _ hbefore => exact absurd hrunning hbefore
  | holding _ hheld => exact hheld (phased_imp (fun _ => Or.inr) hrunning)

/-- No request is issued once the lifecycle stopped admitting writes, and no
transport throws as the lease is lost. -/
def Authorized : Action → Input → World → Prop
  | .fetch _, _, world => world.refusal .canWrite = none
  | .afterRenew _ _, input, _ => input.transportsStop = true
  | _, _, _ => True

instance (action : Action) (input : Input) (world : World) :
    Decidable (Authorized action input world) := by
  cases action <;> unfold Authorized <;> infer_instance

/-- A leased session: its world, its startup, and the threads beside. -/
structure SessionInv (leaseKey : String) (pool : Pool session Unit) : Prop where
  world : Inv leaseKey pool.world
  startup : ∃ program, pool.threads[0]? = some program ∧ Startup pool.world program
  beside : ∀ i program, pool.threads[i]? = some program → i ≠ 0 → program.Only Beside

theorem SessionInv.step {pool : Pool session Unit} {turn : Pool.Turn session}
    (h : SessionInv leaseKey pool) (hauthorized : pool.Takes Authorized turn) :
    SessionInv leaseKey (pool.step turn) := by
  rcases Pool.step_cases pool turn with hidle | ⟨action, next, hthread, hstep⟩
  · rwa [hidle]
  · have hturn := hauthorized action next hthread
    obtain ⟨program, hprogram, hstartup⟩ := h.startup
    have hheld : ∀ change, action = .fetch change → pool.world.held = true := by
      rintro change rfl
      exact hstartup.held h.world hturn
    have hstop : ∀ handle sessionToken, action = .afterRenew handle sessionToken →
        turn.2.transportsStop = true := by
      rintro handle sessionToken rfl
      exact hturn
    have hbeside : ∀ i other, (pool.step turn).threads[i]? = some other → i ≠ 0 →
        other.Only Beside := by
      intro i other hother hne
      rw [hstep] at hother
      rcases Pool.getElem?_set_some hthread hother with ⟨rfl, rfl⟩ | ⟨_, hsame⟩
      · exact (h.beside _ _ hthread hne).2 _
      · exact h.beside i other hsame hne
    by_cases hfirst : turn.1 = 0
    · rw [hfirst] at hthread
      obtain rfl : program = .call action next := Option.some.inj (hprogram.symm.trans hthread)
      refine ⟨?_, ⟨next (perform action turn.2 pool.world).1, ?_, ?_⟩, hbeside⟩
      · rw [hstep]
        exact inv_perform h.world hstartup.ofOneStart hheld turn.2
      · rw [hstep, hfirst]
        exact List.getElem?_set_self (List.getElem?_eq_some_iff.mp hthread).1
      · rw [hstep]
        exact hstartup.advance h.world hstop
    · have hthreadBeside := (h.beside _ _ hthread hfirst).1
      refine ⟨?_, ⟨program, ?_, ?_⟩, hbeside⟩
      · rw [hstep]
        exact inv_perform h.world hthreadBeside.1.1 hheld turn.2
      · rw [hstep, List.getElem?_set_ne hfirst]
        exact hprogram
      · rw [hstep]
        exact hstartup.beside h.world hthreadBeside hstop

theorem started_inv (store : Store) (clock : Clock) (keySeq : Nat) (leaseKey : String)
    (renewFailureLimit : Nat) :
    Inv leaseKey (startedWorld store clock keySeq leaseKey renewFailureLimit) := by
  refine ⟨⟨_, rfl, fun _ => by decide⟩, ⟨_, rfl, rfl, ?_⟩, ?_⟩
  · rintro handle ⟨⟩
  · rintro request ⟨⟩

theorem started_not_running (store : Store) (clock : Clock) (keySeq : Nat)
    (leaseKey : String) (renewFailureLimit : Nat) :
    ¬ Phased Running (startedWorld store clock keySeq leaseKey renewFailureLimit) := by
  rintro ⟨snapshot, hsnapshot, hrunning⟩
  obtain rfl := Option.some.inj hsnapshot
  revert hrunning
  simp [Running, show (dispatch (initialSnapshot 0) .startRequested).1.phase = .starting from
    by decide]

end Fencing

open Fencing

/-- Every request of a leased session, in every state of every run in which no
request is issued after the lifecycle closed and no transport throws as the
lease is lost, goes out while the lease is held and carries its key and a token
granted to the session. -/
theorem leased_session_sends_fenced (config : ClientConfig) (options : StartOptions)
    (threads : List SessionThread) (store : Store) (clock : Clock) (keySeq : Nat)
    (leaseKey : String) (renewFailureLimit : Nat) (schedule : List (Pool.Turn session)) :
    let pool := leasedSession config options threads
      (startedWorld store clock keySeq leaseKey renewFailureLimit)
    pool.Heeds Authorized schedule →
      ∀ request ∈ (pool.run schedule).world.requests,
        Fenced leaseKey (pool.run schedule).world.granted request := by
  intro pool halong
  have hinit : SessionInv leaseKey pool := by
    refine ⟨started_inv _ _ _ _ _, ⟨_, rfl, ?_⟩, ?_⟩
    · exact startSync_waiting (started_not_running _ _ _ _ _) config _ rfl
    · intro i program hprogram hne
      obtain ⟨i, rfl⟩ := Nat.exists_eq_succ_of_ne_zero hne
      obtain ⟨thread, _, rfl⟩ := by simpa [pool, leasedSession] using hprogram
      exact thread_only config thread
  have hfinal : SessionInv leaseKey (pool.run schedule) :=
    Run.induction (fun _ _ => SessionInv.step) hinit halong
  exact hfinal.world.fenced

/-- A leased session in which one write runs beside one beat of the lease. -/
def writeBesideBeat : Pool session Unit :=
  leasedSession { send := some (.backend true) } { leased := true }
    [.call (.write "notes" "n1" (some (.str "a")) {}), .heartbeat 1]
    (startedWorld {} (Clock.fresh "device-1") 0 "zed-sync/flusher/zed-sync/device-1" 3)

/-- The lease is granted, and the write gets as far as asking for a token. -/
def untilToken : List (Pool.Turn session) :=
  turns 0 4 { grant := some (7, none) } ++ turns 1 7 { now := 5 }

theorem write_sent_under_its_grant :
    let pool := writeBesideBeat
    let schedule := untilToken ++ turns 1 2 ++ turns 2 3 { renewal := .failed true }
    (pool.run schedule).world.held = false ∧
      (pool.run schedule).world.requests.length = 1 ∧
      ∀ request ∈ (pool.run schedule).world.requests,
        Fenced "zed-sync/flusher/zed-sync/device-1" (pool.run schedule).world.granted request :=
  ⟨by decide, by decide, leased_session_sends_fenced _ _ _ _ _ _ _ _ _ (by decide)⟩

/-- The lease is lost while the write awaits its token: the request then goes
out unfenced. -/
theorem unfenced_after_a_loss :
    let final := writeBesideBeat.run
      (untilToken ++ turns 2 3 { renewal := .failed true } ++ turns 1 2)
    ¬ ∀ request ∈ final.world.requests,
      Fenced "zed-sync/flusher/zed-sync/device-1" final.world.granted request := by
  intro final hfenced
  have hsent : final.world.requests.map (fun request => (request.held, request.fence)) =
      [(false, none)] := by decide
  obtain ⟨request, hrequest, hpair⟩ := List.mem_map.mp (hsent ▸ List.mem_singleton_self _)
  obtain ⟨hheld, -⟩ := hfenced request hrequest
  simp [hheld] at hpair

end ZedSync.Js
