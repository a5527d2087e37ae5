import Mathlib.Data.List.Nodup
import ZedSync.Js.WriteKeys

/-!
A fleet of devices against a service that answers a repeated Idempotency-Key with
its first answer (`SimServer.commit` of `sdk/test/e2e_harness.mjs`). Each device
runs one process after another; what the requests carry, and how often and in
which order they arrive, is left open.
-/

namespace ZedSync.Js

open Async

/-- One process of a device: its clients' calls, and when it mints its keys. -/
structure Process where
  config : ClientConfig := {}
  calls : List Call
  lifecycle : Option AppLifecycleSnapshot := none
  lease : Option Lease := none
  startMs : Nat
  endMs : Nat
  schedule : List (Pool.Turn session)

/-- What a new process starts on: the clock and the key counter are new, and of
the store it keeps what is in a database. -/
def Process.enter (process : Process) (world : World) : World :=
  { world with
    store :=
      match world.store.kind with
      | .memory => { maxQueueLength := world.store.maxQueueLength }
      | .indexedDb => { world.store with detached := [] }
    clock := Clock.fresh world.clock.actor
    keySeq := 0
    lifecycle := process.lifecycle
    lease := process.lease
    stopCalled := false }

def Process.pool (process : Process) (world : World) : Pool session (Outcome CallResult) :=
  { world := process.enter world, threads := process.calls.map (Call.program process.config) }

def Process.run (process : Process) (world : World) : World :=
  ((process.pool world).run process.schedule).world

/-- A device, its store and the processes it runs one after another. -/
structure Device where
  actor : String
  kind : StoreKind := .indexedDb
  maxQueueLength : Nat := defaultMaxQueueLength
  processes : List Process

def Device.first (device : Device) : World :=
  { store := { kind := device.kind, maxQueueLength := device.maxQueueLength }
    clock := Clock.fresh device.actor }

def Device.last (device : Device) : World :=
  device.processes.foldl (fun world process => process.run world) device.first

/-- The processes run one after another: each mints its keys after the instant
the one before it ended at. -/
def Succeed (instant : Nat) (world : World) : List Process → Prop
  | [] => True
  | process :: rest =>
      instant ≤ process.startMs ∧ process.startMs ≤ process.endMs ∧
        (∀ call ∈ process.calls, call ≠ .newClient true) ∧
        (process.pool world).Heeds (MintsWithin process.startMs process.endMs)
          process.schedule ∧
        Succeed process.endMs (process.run world) rest

theorem MintedBefore.mono {actor : String} {instant later : Nat} {change : ChangeEvent}
    (h : MintedBefore actor instant change) (hle : instant ≤ later) :
    MintedBefore actor later change := by
  obtain ⟨now, seq, hkey, hlt⟩ := h
  exact ⟨now, seq, hkey, hlt.trans_le hle⟩

theorem enter_holds (process : Process) (world : World) {entry : QueueEntry}
    (h : (process.enter world).store.Holds entry) : world.store.Holds entry := by
  unfold Process.enter at h
  dsimp only at h
  split at h
  · simp [Store.Holds] at h
  · exact Or.inl (by simpa [Store.Holds] using h)

theorem Starts.enter {instant : Nat} {world : World} (h : Starts instant world)
    (process : Process) (hle : instant ≤ process.startMs) :
    Starts process.startMs (process.enter world) :=
  ⟨fun entry hentry => h.stored entry (enter_holds process world hentry), h.identify,
    fun change hchange => (h.minted change hchange).mono hle⟩

/-- Whatever its processes do, the keys of a device stay its own, and each stands
for one change. -/
theorem Succeed.starts {instant : Nat} {world : World} {processes : List Process}
    (h : Succeed instant world processes) (hstart : Starts instant world) :
    ∃ last, Starts last (processes.foldl (fun world process => process.run world) world) ∧
      (processes.foldl (fun world process => process.run world) world).clock.actor =
        world.clock.actor := by
  induction processes generalizing instant world with
  | nil => exact ⟨instant, hstart, rfl⟩
  | cons process rest ih =>
      obtain ⟨hafter, horder, hcalls, hheeds, hrest⟩ := h
      obtain ⟨hends, hactor⟩ := process_keeps_keys process.config process.calls
        (process.enter world) process.startMs process.endMs process.schedule horder hcalls
        (hstart.enter process hafter) hheeds
      obtain ⟨last, hlast, hsame⟩ := ih hrest hends
      exact ⟨last, hlast, hsame.trans hactor⟩

theorem first_starts (device : Device) : Starts 0 device.first := by
  refine ⟨fun entry hentry => ?_, ?_, ?_⟩
  · simp [Device.first, Store.Holds] at hentry
  · simp [KeysIdentify, Device.first, World.keyed]
  · simp [Device.first, World.keyed]

theorem device_keys {device : Device} (h : Succeed 0 device.first device.processes) :
    KeysIdentify device.last.keyed ∧ ∀ change ∈ device.last.keyed, ∃ now seq,
      change.writeKey = some (nextKey device.actor now seq) := by
  obtain ⟨last, hlast, hactor⟩ := h.starts (first_starts device)
  refine ⟨hlast.identify, fun change hchange => ?_⟩
  obtain ⟨now, seq, hkey, -⟩ := hlast.minted change hchange
  rw [hactor] at hkey
  exact ⟨now, seq, hkey⟩

/-- Everything a fleet put a key on. -/
def keyedBy (fleet : List Device) : List ChangeEvent := fleet.flatMap (·.last.keyed)

/-- The keys of devices with different actors differ, so those of a fleet
identify its changes. -/
theorem fleet_keys {fleet : List Device} (hactors : (fleet.map (·.actor)).Nodup)
    (hsucceed : ∀ device ∈ fleet, Succeed 0 device.first device.processes) :
    KeysIdentify (keyedBy fleet) := by
  intro a ha b hb hkey
  obtain ⟨device, hdevice, ha⟩ := List.mem_flatMap.mp ha
  obtain ⟨device', hdevice', hb⟩ := List.mem_flatMap.mp hb
  obtain ⟨hidentify, hminted⟩ := device_keys (hsucceed device hdevice)
  obtain ⟨now, seq, hakey⟩ := hminted a ha
  obtain ⟨now', seq', hbkey⟩ := (device_keys (hsucceed device' hdevice')).2 b hb
  have hsame : some (nextKey device.actor now seq) = some (nextKey device'.actor now' seq') :=
    hakey.symm.trans (hkey.trans hbkey)
  obtain ⟨hactor, -⟩ := nextKey_inj (Option.some.inj hsame)
  obtain rfl := List.inj_on_of_nodup_map hactors hdevice hdevice' hactor
  exact hidentify a ha b hb hkey

theorem nextKey_ne_empty (actor : String) (now seq : Nat) : nextKey actor now seq ≠ "" := by
  intro hempty
  have hlength := congrArg String.length hempty
  simp [nextKey] at hlength

/-- What the service remembers: its answer under each key, and what it committed. -/
structure Service where
  byWriteKey : List (String × Hlc) := []
  outbox : List (ChangeEvent × Hlc) := []

/-- `write_key` when it is truthy. -/
def truthyKey (change : ChangeEvent) : Option String :=
  change.writeKey.filter (· ≠ "")

/-- The answer given under the change's key before, if there was one. -/
def Service.answered (service : Service) (change : ChangeEvent) : Option Hlc :=
  (truthyKey change).bind fun key => List.lookup key service.byWriteKey

/-- One request: a repeated key is answered with its first answer, any other
change is committed, at a version its triggers stamp. -/
def Service.commit (service : Service) (change : ChangeEvent) (version : Hlc) :
    Hlc × Service :=
  match service.answered change with
  | some committed => (committed, service)
  | none =>
      (version,
        { byWriteKey := (truthyKey change).toList.map (·, version) ++ service.byWriteKey
          outbox := service.outbox ++ [(change, version)] })

/-- The answers to the requests in the order they arrive. -/
def Service.serve (service : Service) :
    List (ChangeEvent × Hlc) → List (ChangeEvent × Hlc) × Service
  | [] => ([], service)
  | (change, version) :: rest =>
      let outcome := service.commit change version
      let served := outcome.2.serve rest
      ((change, outcome.1) :: served.1, served.2)

/-- Requests whose keys identify them can be told apart by the service. -/
structure Telling (changes : List ChangeEvent) : Prop where
  identify : KeysIdentify changes
  truthy : ∀ change ∈ changes, ∃ key, truthyKey change = some key

/-- What the service keeps when it serves such requests. -/
structure Service.Inv (changes : List ChangeEvent) (service : Service) : Prop where
  known : ∀ change ∈ service.outbox.map Prod.fst, change ∈ changes
  once : (service.outbox.map Prod.fst).Nodup
  first : ∀ change ∈ changes, ∀ version, service.answered change = some version →
    (change, version) ∈ service.outbox
  repeated : ∀ change ∈ service.outbox.map Prod.fst, service.answered change ≠ none

theorem truthyKey_eq_some {change : ChangeEvent} {key : String}
    (h : truthyKey change = some key) : change.writeKey = some key :=
  (Option.filter_eq_some_iff.mp h).1

theorem Telling.eq_of_key {changes : List ChangeEvent} (h : Telling changes)
    {change other : ChangeEvent} (hchange : change ∈ changes) (hother : other ∈ changes)
    {key : String} (hkey : truthyKey change = some key) (hsame : truthyKey other = some key) :
    other = change := by
  apply h.identify other hother change hchange
  rw [truthyKey_eq_some hkey, truthyKey_eq_some hsame]

theorem commit_repeated {service : Service} {change : ChangeEvent} {committed : Hlc}
    (h : service.answered change = some committed) (version : Hlc) :
    service.commit change version = (committed, service) := by
  simp [Service.commit, h]

theorem commit_fresh {service : Service} {change : ChangeEvent}
    (h : service.answered change = none) (version : Hlc) :
    service.commit change version =
      (version,
        { byWriteKey := (truthyKey change).toList.map (·, version) ++ service.byWriteKey
          outbox := service.outbox ++ [(change, version)] }) := by
  simp [Service.commit, h]

/-- A commit under a new key: the key reads as the new answer, and every other
key as before. -/
theorem answered_fresh {changes : List ChangeEvent} (htelling : Telling changes)
    {service : Service} {change : ChangeEvent} (hchange : change ∈ changes) (version : Hlc)
    (hfresh : service.answered change = none) {other : ChangeEvent} (hother : other ∈ changes) :
    (other = change ∧ (service.commit change version).2.answered other = some version) ∨
      (other ≠ change ∧
        (service.commit change version).2.answered other = service.answered other) := by
  obtain ⟨key, hkey⟩ := htelling.truthy change hchange
  obtain ⟨otherKey, hotherKey⟩ := htelling.truthy other hother
  have hlookup : (service.commit change version).2.answered other =
      List.lookup otherKey ((key, version) :: service.byWriteKey) := by
    rw [commit_fresh hfresh]
    simp [Service.answered, hkey, hotherKey]
  rw [hlookup, List.lookup_cons]
  by_cases hsame : otherKey = key
  · refine Or.inl ⟨htelling.eq_of_key hchange hother hkey (hsame ▸ hotherKey), ?_⟩
    simp [hsame]
  · refine Or.inr ⟨?_, by simp [beq_false_of_ne hsame, Service.answered, hotherKey]⟩
    rintro rfl
    exact hsame (Option.some.inj (hotherKey.symm.trans hkey))

/-- What one request does: its change is committed unless it was before, nothing
else is, and it is answered with the version its own change was committed at. -/
structure Commits (changes : List ChangeEvent) (before : Service) (change : ChangeEvent)
    (answer : Hlc) (after : Service) : Prop where
  inv : after.Inv changes
  kept : before.outbox ⊆ after.outbox
  own : (change, answer) ∈ after.outbox
  only : ∀ other ∈ after.outbox.map Prod.fst,
    other ∈ before.outbox.map Prod.fst ∨ other = change

theorem Service.Inv.commit {changes : List ChangeEvent} (htelling : Telling changes)
    {service : Service} (h : service.Inv changes) {change : ChangeEvent}
    (hchange : change ∈ changes) (version : Hlc) :
    Commits changes service change (service.commit change version).1
      (service.commit change version).2 := by
  cases hanswered : service.answered change with
  | some committed =>
      rw [commit_repeated hanswered]
      exact ⟨h, fun _ hmem => hmem, h.first change hchange committed hanswered,
        fun _ hmem => Or.inl hmem⟩
  | none =>
      have houtbox : (service.commit change version).2.outbox =
          service.outbox ++ [(change, version)] := by
        rw [commit_fresh hanswered]
      have hanswer : (service.commit change version).1 = version := by
        rw [commit_fresh hanswered]
      have hmem : ∀ other, other ∈ (service.commit change version).2.outbox.map Prod.fst ↔
          other ∈ service.outbox.map Prod.fst ∨ other = change := by
        intro other
        rw [houtbox, List.map_append, List.mem_append, List.map_singleton, List.mem_singleton]
      have hown : (change, version) ∈ (service.commit change version).2.outbox := by
        simp [houtbox]
      have hreads := fun other (hother : other ∈ changes) =>
        answered_fresh htelling hchange version hanswered hother
      have hknown : ∀ other ∈ (service.commit change version).2.outbox.map Prod.fst,
          other ∈ changes := by
        intro other hother
        rcases (hmem other).mp hother with hold | rfl
        · exact h.known other hold
        · exact hchange
      refine ⟨⟨hknown, ?_, ?_, ?_⟩, ?_, by rw [hanswer]; exact hown,
        fun other => (hmem other).mp⟩
      · have hnew : change ∉ service.outbox.map Prod.fst :=
          fun hold => h.repeated change hold hanswered
        rw [houtbox, List.map_append, List.map_singleton, ← List.concat_eq_append]
        exact List.Nodup.concat hnew h.once
      · intro other hother answer hread
        rcases hreads other hother with ⟨rfl, hnow⟩ | ⟨-, hsame⟩
        · obtain rfl := Option.some.inj (hnow.symm.trans hread)
          exact hown
        · rw [houtbox]
          exact List.mem_append_left _ (h.first other hother answer (hsame.symm.trans hread))
      · intro other hother
        rcases hreads other (hknown other hother) with ⟨-, hnow⟩ | ⟨hne, hsame⟩
        · simp [hnow]
        · rw [hsame]
          exact h.repeated other (((hmem other).mp hother).resolve_right hne)
      · rw [houtbox]
        exact List.subset_append_left _ _

/-- Any requests in any order, each as often as it comes: every change that
arrived is committed once, and nothing else is. -/
theorem Service.Inv.serve {changes : List ChangeEvent} (htelling : Telling changes)
    (arrivals : List (ChangeEvent × Hlc)) {service : Service} (h : service.Inv changes)
    (harrivals : ∀ arrival ∈ arrivals, arrival.1 ∈ changes) :
    (service.serve arrivals).2.Inv changes ∧
      service.outbox ⊆ (service.serve arrivals).2.outbox ∧
      (∀ change, change ∈ (service.serve arrivals).2.outbox.map Prod.fst ↔
        change ∈ service.outbox.map Prod.fst ∨ change ∈ arrivals.map Prod.fst) ∧
      ∀ answer ∈ (service.serve arrivals).1, answer ∈ (service.serve arrivals).2.outbox := by
  induction arrivals generalizing service with
  | nil => simp [Service.serve, h]
  | cons arrival rest ih =>
      obtain ⟨change, version⟩ := arrival
      obtain ⟨hchange, hrest⟩ := List.forall_mem_cons.mp harrivals
      have hcommits := h.commit htelling hchange version
      obtain ⟨hinv, hkept, hmem, hanswers⟩ := ih hcommits.inv hrest
      refine ⟨hinv, fun _ hold => hkept (hcommits.kept hold), fun other => ?_, ?_⟩
      · rw [List.map_cons, List.mem_cons]
        refine (hmem other).trans ?_
        constructor
        · rintro (hcommitted | hlater)
          · exact (hcommits.only other hcommitted).imp_right Or.inl
          · exact Or.inr (Or.inr hlater)
        · rintro (hold | rfl | hlater)
          · exact Or.inl (List.map_subset _ hcommits.kept hold)
          · exact Or.inl (List.mem_map_of_mem hcommits.own)
          · exact Or.inr hlater
      · intro answer hanswer
        rcases List.mem_cons.mp hanswer with rfl | hlater
        · exact hkept hcommits.own
        · exact hanswers answer hlater

/-- A fleet of devices, each running one process after another in any
interleaving of its calls, and a service that gets their requests in any order and
any number of times: every change that arrived is committed exactly once, nothing
else is, and every request is answered with the version its own change was
committed at. -/
theorem fleet_commits_exactly_once (fleet : List Device) (arrivals : List (ChangeEvent × Hlc))
    (hactors : (fleet.map (·.actor)).Nodup)
    (hsucceed : ∀ device ∈ fleet, Succeed 0 device.first device.processes)
    (harrivals : ∀ arrival ∈ arrivals, ∃ device ∈ fleet, ∃ request ∈ device.last.requests,
      request.change = arrival.1) :
    let served := Service.serve {} arrivals
    (served.2.outbox.map Prod.fst).Nodup ∧
      (∀ change, change ∈ served.2.outbox.map Prod.fst ↔ change ∈ arrivals.map Prod.fst) ∧
      ∀ answer ∈ served.1, answer ∈ served.2.outbox := by
  intro served
  have htelling : Telling (keyedBy fleet) := by
    refine ⟨fleet_keys hactors hsucceed, fun change hchange => ?_⟩
    obtain ⟨device, hdevice, hchange⟩ := List.mem_flatMap.mp hchange
    obtain ⟨now, seq, hkey⟩ := (device_keys (hsucceed device hdevice)).2 change hchange
    exact ⟨_, Option.filter_eq_some_iff.mpr ⟨hkey, by simp [nextKey_ne_empty]⟩⟩
  have hkeyed : ∀ arrival ∈ arrivals, arrival.1 ∈ keyedBy fleet := by
    intro arrival harrival
    obtain ⟨device, hdevice, request, hrequest, hsame⟩ := harrivals arrival harrival
    refine List.mem_flatMap.mpr ⟨device, hdevice, List.mem_append_right _ ?_⟩
    exact hsame ▸ List.mem_map_of_mem hrequest
  have hfirst : Service.Inv (keyedBy fleet) {} := ⟨by simp, by simp, by
    simp [Service.answered], by simp⟩
  obtain ⟨hinv, -, hmem, hanswers⟩ := hfirst.serve htelling arrivals hkeyed
  exact ⟨hinv.once, fun change => (hmem change).trans (by simp), hanswers⟩

/-- A process that makes one write while the service is out of reach. -/
def writing (id : String) (now : Nat) : Process :=
  { config := { send := some (.backend false) }
    calls := [.write "todos" id (some (.num now)) {}]
    startMs := now
    endMs := now + 1
    schedule := turns 0 9 { now := now } }

/-- A process that finds the write in the database, and sends it again. -/
def resending (now : Nat) : Process :=
  { config := { send := some (.backend false) }
    calls := [.flushQueue .emitOnly]
    startMs := now
    endMs := now + 1
    schedule := turns 0 5 { now := now } }

def phone : Device := { actor := "phone", processes := [writing "a" 5, resending 6] }

def laptop : Device := { actor := "laptop", processes := [writing "a" 5] }

/-- The requests of the devices, each stamped alike. -/
def requestsOf (fleet : List Device) : List (ChangeEvent × Hlc) :=
  fleet.flatMap fun device =>
    device.last.requests.map fun request =>
      (request.change, { wallMs := 8, counter := 0, actor := "pg" })

theorem three_requests_commit_twice :
    (requestsOf [phone, laptop]).length = 3 ∧
      (Service.serve {} (requestsOf [phone, laptop])).2.outbox.length = 2 ∧
      ((Service.serve {} (requestsOf [phone, laptop])).2.outbox.map Prod.fst).Nodup := by
  refine ⟨by decide, by decide, (fleet_commits_exactly_once [phone, laptop]
    (requestsOf [phone, laptop]) (by decide) ?_ ?_).1⟩
  · intro device hdevice
    rcases List.mem_pair.mp hdevice with rfl | rfl
    · exact ⟨by decide, by decide, by simp [writing], by decide, by decide, by decide,
        by simp [resending], by decide, trivial⟩
    · exact ⟨by decide, by decide, by simp [writing], by decide, trivial⟩
  · intro arrival harrival
    obtain ⟨device, hdevice, harrival⟩ := List.mem_flatMap.mp harrival
    obtain ⟨request, hrequest, rfl⟩ := List.mem_map.mp harrival
    exact ⟨device, hdevice, request, hrequest, rfl⟩

/-- A process that starts within the millisecond of the last one counts its keys
from zero again: its first write has the key of a write to another row, and the
service takes it for a repetition. -/
theorem restart_within_the_millisecond_loses_a_write :
    let restarted : Device := { actor := "phone", processes := [writing "a" 5, writing "b" 5] }
    (requestsOf [restarted]).map (·.1.id) = ["a", "b"] ∧
      (Service.serve {} (requestsOf [restarted])).2.outbox.map (·.1.id) = ["a"] := by
  decide

end ZedSync.Js
