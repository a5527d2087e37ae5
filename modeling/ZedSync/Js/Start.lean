import ZedSync.Js.Client

/-!
`startSync` (`sdk/src/start.mjs`) with a lease (`sdk/src/lease.mjs`): the
startup, the heartbeat of the lease, the connectivity reports of the
transports, and `stop`. Each is a thread beside the calls made on the client.
-/

namespace ZedSync.Js

open Async

structure StartOptions where
  leased : Bool
  flushOnAcquire : Bool := true
  hydrations : List (List ChangeEvent) := []
  deriving Repr

/-- `hydrateAll`: the fetched changes of each table; a failure waits for the
next reconnect. -/
def hydrateAll (config : ClientConfig) : List (List ChangeEvent) → Prog session Unit
  | [] => return ()
  | changes :: rest => do
      act .settled
      let _ ← hydrate config changes
      hydrateAll config rest

/-- The `catch` of `startSync`. The transports it stops are not modelled. -/
def failStart (sessionToken : Nat) : Prog session Unit := do
  act .releaseLease
  act .settled
  let _ ← act (.dispatch (.startFailed sessionToken))

/-- `startSync` once the lease is held, or when there is none. A failure of the
flush on promotion is retried on reconnect. -/
def startHeld (config : ClientConfig) (options : StartOptions) (sessionToken : Nat) :
    Prog session Unit := do
  hydrateAll config options.hydrations
  let _ ← act (.dispatch (.startSucceeded sessionToken))
  if options.leased && options.flushOnAcquire && config.send.isSome then
    let _ ← flushQueue config .emitOnly

/-- `startSync` after the start request: block until this instance is elected
before anything touches the shared store. -/
def startSync (config : ClientConfig) (options : StartOptions) (sessionToken : Nat) :
    Prog session Unit := do
  if options.leased then
    if ← act .lock then startHeld config options sessionToken
    else failStart sessionToken
  else startHeld config options sessionToken

/-- A number of beats of the lease, each a renewal and what follows from it. -/
def heartbeat (sessionToken : Nat) : Nat → Prog session Unit
  | 0 => return ()
  | beats + 1 => do
      match ← act .readHandle with
      | none => return ()
      | some handle =>
          let _ ← act .renew
          if ← act (.afterRenew handle sessionToken) then heartbeat sessionToken beats

/-- `reportTransport`. -/
def reportTransport (sessionToken : Nat) (online : Bool) : Prog session Unit := do
  let _ ← act (.dispatch (.connectivityChanged sessionToken online))

def stop : Prog session Unit := do
  match ← act .stopBegin with
  | .joined | .alreadyStopped | .rejected _ => return ()
  | .transportsFailed stopToken =>
      let _ ← act (.dispatch (.stopFailed (stopToken.getD 0)))
  | .releasing stopToken =>
      act .settled
      let _ ← act (.dispatch (.stopSucceeded (stopToken.getD 0)))

/-- What runs beside the startup of a session. -/
inductive SessionThread where
  | call (call : Call)
  | heartbeat (beats : Nat)
  | reportTransport (online : Bool)
  | stop
  deriving Repr

/-- The token of the first start of a new machine. -/
def firstToken : Nat := 1

def SessionThread.program (config : ClientConfig) : SessionThread → Prog session Unit
  | .call made => do let _ ← made.program config
  | .heartbeat beats => Js.heartbeat firstToken beats
  | .reportTransport online => Js.reportTransport firstToken online
  | .stop => Js.stop

/-- The world in which `startSync` first waits: the start was requested of a new
machine, and nothing was granted or sent yet. -/
def startedWorld (store : Store) (clock : Clock) (keySeq : Nat) (leaseKey : String)
    (renewFailureLimit : Nat) : World :=
  { store := store, clock := clock, keySeq := keySeq,
    lifecycle := some (dispatch (initialSnapshot 0) .startRequested).1,
    lease := some { key := leaseKey, renewFailureLimit := renewFailureLimit } }

/-- A leased session: the startup, and any threads beside it. -/
def leasedSession (config : ClientConfig) (options : StartOptions)
    (threads : List SessionThread) (world : World) : Pool session Unit :=
  { world := world,
    threads := startSync config { options with leased := true } firstToken ::
      threads.map (SessionThread.program config) }

end ZedSync.Js
