import ZedSync.Js.BackendStream
import ZedSync.Js.SessionReports

/-!
A session of `startSync` (`sdk/src/start.mjs`) with the transports it starts: the socket
stream of the backend, which reports through `onStatus`, and the channel of Supabase, which
reports its status by name. Each report goes into the lifecycle before the callback of the
options hears it, and that callback may come back into `stop`. What the transports deliver
is left out here.
-/

namespace ZedSync.Js

namespace BackendStream

section Sockets

variable {stream : BackendStream}

@[simp] theorem length_onStatus (status : StatusCall) :
    (stream.onStatus status).sockets.length = stream.sockets.length := by
  cases status with
  | stops => simp [onStatus, stop, closeWs]
  | returns => rfl
  | throws => rfl

@[simp] theorem sockets_reconnectLater : stream.reconnectLater.sockets = stream.sockets := by
  unfold reconnectLater
  split
  · rfl
  · rfl

@[simp] theorem sockets_connect : stream.connect.sockets = stream.sockets := by
  unfold connect
  split
  · rfl
  · rfl

/-- A socket is created only where none is left. -/
theorem step_one_socket (options : StreamOptions) (hload : stream.stopped = true ∨ stream.load ≤ 1)
    (hone : stream.sockets.length ≤ 1) (event : StreamEvent) :
    (step options stream event).sockets.length ≤ 1 := by
  cases event with
  | tokenResolves token built =>
      dsimp only [step]
      split
      · exact hone
      · rename_i hresolving
        split
        · exact hone
        · rename_i hbuilt
          have hle : stream.load ≤ 1 := by
            refine hload.resolve_left fun hstopped => hbuilt ?_
            simp [hstopped]
          simp only [load] at hle
          simp only [List.length_append, List.length_singleton]
          omega
  | tokenRejects =>
      dsimp only [step]
      split
      · exact hone
      · exact hone
  | opens socket status =>
      dsimp only [step]
      split
      · simpa using hone
      · exact hone
  | errors socket =>
      dsimp only [step]
      split
      · simpa [closeWs] using hone
      · exact hone
  | closes socket status =>
      have hwithout : (stream.without socket).sockets.length ≤ 1 :=
        (List.length_filter_le _ _).trans hone
      dsimp only [step]
      split
      · split
        · simpa using hwithout
        · simpa using hwithout
      · exact hone
  | timerFires index =>
      dsimp only [step]
      split
      · simpa [fired] using hone
      · exact hone
  | stop => simpa [step, stop, closeWs] using hone

/-- No run of the stream ever has two sockets. -/
theorem run_one_socket (options : StreamOptions) (events : List StreamEvent) :
    (Run.final (step options) start events).sockets.length ≤ 1 := by
  have hinv : ∀ stream event,
      (stream.stopped = true ∨ stream.load ≤ 1) ∧ stream.sockets.length ≤ 1 →
        ((step options stream event).stopped = true ∨ (step options stream event).load ≤ 1) ∧
          (step options stream event).sockets.length ≤ 1 := by
    rintro stream event ⟨hload, hone⟩
    exact ⟨step_stopped_or_load options stream event hload,
      step_one_socket options hload hone event⟩
  exact (Run.preserved hinv events ⟨Or.inr (by decide), by decide⟩).2

theorem live_iff (id : Nat) :
    stream.live id = true ↔ ∃ socket ∈ stream.sockets, socket.id = id := by
  simp [live]

/-- Of a single socket, the one that is live is all there is. -/
theorem live_unique (hone : stream.sockets.length ≤ 1) {id other : Nat}
    (hlive : stream.live id = true) (hother : stream.live other = true) : other = id := by
  obtain ⟨first, hfirst, rfl⟩ := (live_iff id).mp hlive
  obtain ⟨second, hsecond, rfl⟩ := (live_iff other).mp hother
  match hsockets : stream.sockets with
  | [] =>
      rw [hsockets] at hfirst
      cases hfirst
  | [only] =>
      rw [hsockets] at hfirst hsecond
      rw [List.mem_singleton.mp hfirst, List.mem_singleton.mp hsecond]
  | _ :: _ :: _ => simp [hsockets] at hone

@[simp] theorem live_closeWs (id : Nat) : stream.closeWs.live id = stream.live id := by
  unfold live closeWs
  dsimp only
  rw [List.any_map]
  congr 1
  funext socket
  dsimp only [Function.comp]
  split
  · rfl
  · rfl

@[simp] theorem live_stop (id : Nat) : stream.stop.live id = stream.live id := live_closeWs id

@[simp] theorem live_onStatus (status : StatusCall) (id : Nat) :
    (stream.onStatus status).live id = stream.live id := by
  cases status with
  | stops => exact live_stop id
  | returns => rfl
  | throws => rfl

/-- Only its close event takes a socket away. -/
theorem live_step (options : StreamOptions) {event : StreamEvent}
    (hcloses : ∀ socket status, event ≠ .closes socket status) {id : Nat}
    (hlive : stream.live id = true) : (step options stream event).live id = true := by
  cases event with
  | tokenResolves token built =>
      dsimp only [step]
      split
      · exact hlive
      · split
        · exact hlive
        · simp only [live, List.any_append, Bool.or_eq_true]
          exact Or.inl hlive
  | tokenRejects =>
      dsimp only [step]
      split
      · exact hlive
      · exact hlive
  | opens socket status =>
      dsimp only [step]
      split
      · rw [live_onStatus]
        exact hlive
      · exact hlive
  | errors socket =>
      dsimp only [step]
      split
      · rw [live_closeWs]
        exact hlive
      · exact hlive
  | closes socket status => exact absurd rfl (hcloses socket status)
  | timerFires index =>
      dsimp only [step]
      split
      · simp only [live, sockets_connect]
        exact hlive
      · exact hlive
  | stop =>
      dsimp only [step]
      rw [live_stop]
      exact hlive

end Sockets

end BackendStream

/-- A session with the stream of its backend, the sockets that opened and have not closed,
and the last status of its channel that decides. -/
structure ConnectedSession where
  session : SyncSession := .start
  stream : Option BackendStream := none
  opened : List Nat := []
  subscribed : Bool := false

inductive ConnectedEvent where
  /-- A turn of the session itself: the transports alone report, and only `stop` and the
  session stop them. -/
  | session (event : SessionEvent)
  | backend (event : StreamEvent)
  | channel (status : String) (callback : StatusCall)

namespace ConnectedSession

/-- A turn of the session, with the backend stream it starts or stops. -/
def turn (options : SyncOptions) (connected : ConnectedSession) (event : SessionEvent) :
    ConnectedSession :=
  let session := SyncSession.step options connected.session event
  let stream := connected.stream.or
    (if .backend ∈ session.started then some .start else none)
  let stops := .backend ∈ session.stopped ∧ .backend ∉ connected.session.stopped
  { connected with session := session, stream := if stops then stream.map .stop else stream }

/-- The `onStatus` of the options. -/
def callBack (options : SyncOptions) (connected : ConnectedSession) :
    StatusCall → ConnectedSession
  | .stops => connected.turn options .stop
  | .returns | .throws => connected

/-- The `onStatus` a transport is started with: the session hears the report first. -/
def report (options : SyncOptions) (connected : ConnectedSession) (transport : Transport)
    (online : Bool) (callback : StatusCall) : ConnectedSession :=
  (connected.turn options (.status transport online)).callBack options callback

/-- What a status of the channel says about it, if anything. -/
def channelOnline (status : String) : Option Bool :=
  if status = "SUBSCRIBED" then some true
  else if status ∈ ["CHANNEL_ERROR", "TIMED_OUT", "CLOSED"] then some false
  else none

/-- `onopen`, up to the catch-up. -/
def opens (options : SyncOptions) (connected : ConnectedSession) (stream : BackendStream)
    (socket : Nat) (callback : StatusCall) : ConnectedSession :=
  { connected with
      stream := some { stream with attempt := 0 }
      opened := connected.opened.insert socket }.report options .backend true callback

/-- `onclose`. -/
def closes (options : SyncOptions) (connected : ConnectedSession) (stream : BackendStream)
    (socket : Nat) (callback : StatusCall) : ConnectedSession :=
  let reported :=
    { connected with
        stream := some (stream.without socket)
        opened := connected.opened.filter (· ≠ socket) }.report options .backend false callback
  if callback = .throws then reported
  else { reported with stream := reported.stream.map .reconnectLater }

/-- One event. What a transport that was not started, or a socket that is gone, would do
changes nothing. -/
def step (options : SyncOptions) (streamOptions : StreamOptions) (connected : ConnectedSession) :
    ConnectedEvent → ConnectedSession
  | .session (.status _ _) => connected
  | .session event => connected.turn options event
  | .backend event =>
      match connected.stream with
      | none => connected
      | some stream =>
          match event with
          | .stop => connected
          | .opens socket callback =>
              if stream.live socket then connected.opens options stream socket callback
              else connected
          | .closes socket callback =>
              if stream.live socket then connected.closes options stream socket callback
              else connected
          | event =>
              { connected with stream := some (BackendStream.step streamOptions stream event) }
  | .channel status callback =>
      if .supabase ∉ connected.session.started then connected
      else
        match channelOnline status with
        | none => connected.callBack options callback
        | some online =>
            { connected with subscribed := online }.report options .supabase online callback

/-- Some transport is up: a socket of the stream is open, or the channel is subscribed. -/
def Connected (connected : ConnectedSession) : Prop :=
  (∃ stream ∈ connected.stream, ∃ socket ∈ stream.sockets, socket.id ∈ connected.opened) ∨
    connected.subscribed = true

/-- What an event can make of a session with its transports. -/
inductive Moved (options : SyncOptions) (streamOptions : StreamOptions)
    (connected : ConnectedSession) : ConnectedSession → Prop
  | kept : Moved options streamOptions connected connected
  | turned (event : SessionEvent) (hreport : ∀ transport online, event ≠ .status transport online) :
      Moved options streamOptions connected (connected.turn options event)
  | calledBack (callback : StatusCall) :
      Moved options streamOptions connected (connected.callBack options callback)
  | opened (stream : BackendStream) (socket : Nat) (callback : StatusCall)
      (hstream : connected.stream = some stream) (hlive : stream.live socket = true) :
      Moved options streamOptions connected (connected.opens options stream socket callback)
  | closed (stream : BackendStream) (socket : Nat) (callback : StatusCall)
      (hstream : connected.stream = some stream) (hlive : stream.live socket = true) :
      Moved options streamOptions connected (connected.closes options stream socket callback)
  | streamed (stream : BackendStream) (event : StreamEvent)
      (hstream : connected.stream = some stream)
      (hcloses : ∀ socket status, event ≠ .closes socket status) :
      Moved options streamOptions connected
        { connected with stream := some (BackendStream.step streamOptions stream event) }
  | reported (online : Bool) (callback : StatusCall)
      (hstarted : .supabase ∈ connected.session.started) :
      Moved options streamOptions connected
        ({ connected with subscribed := online }.report options .supabase online callback)

theorem step_moved (options : SyncOptions) (streamOptions : StreamOptions)
    (connected : ConnectedSession) (event : ConnectedEvent) :
    Moved options streamOptions connected (connected.step options streamOptions event) := by
  cases event with
  | session event =>
      cases event with
      | status transport online => exact .kept
      | _ => exact .turned _ (by simp)
  | backend event =>
      dsimp only [step]
      cases hstream : connected.stream with
      | none => exact .kept
      | some stream =>
          cases event with
          | stop => exact .kept
          | opens socket callback =>
              dsimp only
              split
              · rename_i hlive
                exact .opened stream socket callback hstream hlive
              · exact .kept
          | closes socket callback =>
              dsimp only
              split
              · rename_i hlive
                exact .closed stream socket callback hstream hlive
              · exact .kept
          | tokenResolves | tokenRejects | errors | timerFires =>
              exact .streamed stream _ hstream (by simp)
  | channel status callback =>
      dsimp only [step]
      split
      · exact .kept
      · rename_i hstarted
        split
        · exact .calledBack callback
        · exact .reported _ callback (not_not.mp hstarted)

section Stream

variable {options : SyncOptions} {streamOptions : StreamOptions} {connected : ConnectedSession}
  {stream : BackendStream}

/-- Every turn of the session leaves the stream, stops it or starts it. -/
theorem turn_stream (options : SyncOptions) (connected : ConnectedSession)
    (event : SessionEvent) :
    (∃ stream ∈ connected.stream.or (some .start),
      (connected.turn options event).stream = some stream ∨
        (connected.turn options event).stream = some stream.stop) ∨
      (connected.turn options event).stream = none := by
  dsimp only [turn]
  cases hstream : connected.stream with
  | some stream =>
      refine Or.inl ⟨stream, rfl, ?_⟩
      simp only [Option.some_or, Option.map_some]
      split
      · exact Or.inr rfl
      · exact Or.inl rfl
  | none =>
      by_cases hstarted :
          .backend ∈ (SyncSession.step options connected.session event).started
      · refine Or.inl ⟨.start, rfl, ?_⟩
        simp only [Option.none_or, if_pos hstarted, Option.map_some]
        split
        · exact Or.inr rfl
        · exact Or.inl rfl
      · exact Or.inr (by simp [hstarted])

/-- A report leaves the stream, and the callback may stop it. -/
theorem report_stream (options : SyncOptions) (connected : ConnectedSession)
    (hstream : connected.stream = some stream) (transport : Transport) (online : Bool)
    (callback : StatusCall) :
    ∃ status, (status = .throws ↔ callback = .throws) ∧
      (connected.report options transport online callback).stream =
        some (stream.onStatus status) := by
  have hheard : (connected.turn options (.status transport online)).stream = some stream := by
    have hsame : (SyncSession.step options connected.session (.status transport online)).stopped =
        connected.session.stopped := by
      dsimp only [SyncSession.step]
      split
      · rfl
      · rfl
    simp [turn, hstream, hsame]
  unfold report
  cases callback with
  | returns => exact ⟨.returns, by simp, hheard⟩
  | throws => exact ⟨.throws, by simp, hheard⟩
  | stops =>
      generalize connected.turn options (.status transport online) = heard at hheard
      dsimp only [callBack, turn]
      rw [hheard]
      simp only [Option.some_or, Option.map_some]
      split
      · exact ⟨.stops, by simp, rfl⟩
      · exact ⟨.returns, by simp, rfl⟩

theorem opens_stream (options : SyncOptions) (streamOptions : StreamOptions)
    (connected : ConnectedSession) {socket : Nat} (hlive : stream.live socket = true)
    (callback : StatusCall) :
    ∃ status, (connected.opens options stream socket callback).stream =
      some (BackendStream.step streamOptions stream (.opens socket status)) := by
  obtain ⟨status, -, hstream⟩ := report_stream options
    { connected with
      stream := some { stream with attempt := 0 }
      opened := connected.opened.insert socket } rfl .backend true callback
  refine ⟨status, hstream.trans ?_⟩
  simp [BackendStream.step, hlive]

theorem closes_stream (options : SyncOptions) (streamOptions : StreamOptions)
    (connected : ConnectedSession) {socket : Nat} (hlive : stream.live socket = true)
    (callback : StatusCall) :
    ∃ status, (connected.closes options stream socket callback).stream =
      some (BackendStream.step streamOptions stream (.closes socket status)) := by
  obtain ⟨status, hthrows, hstream⟩ := report_stream options
    { connected with
      stream := some (stream.without socket)
      opened := connected.opened.filter (· ≠ socket) } rfl .backend false callback
  refine ⟨status, ?_⟩
  dsimp only [closes]
  by_cases hcallback : callback = .throws
  · rw [if_pos hcallback, hstream]
    simp [BackendStream.step, hlive, hthrows.mpr hcallback]
  · have hstatus : status ≠ .throws := fun hnow => hcallback (hthrows.mp hnow)
    rw [if_neg hcallback]
    dsimp only
    rw [hstream]
    simp [BackendStream.step, hlive, hstatus]

/-- The stream of the session has run as the stream of a backend does. -/
def Streams (streamOptions : StreamOptions) (connected : ConnectedSession) : Prop :=
  ∀ stream ∈ connected.stream,
    ∃ events, stream = Run.final (BackendStream.step streamOptions) .start events

theorem Streams.next (h : connected.Streams streamOptions)
    (hstream : connected.stream = some stream) {next : ConnectedSession} {event : StreamEvent}
    (hnext : next.stream = some (BackendStream.step streamOptions stream event)) :
    next.Streams streamOptions := by
  obtain ⟨events, hevents⟩ := h stream hstream
  intro after hafter
  obtain rfl := Option.some.inj (hnext.symm.trans hafter)
  refine ⟨events ++ [event], ?_⟩
  rw [Run.final_append, ← hevents]
  rfl

theorem Streams.turn (h : connected.Streams streamOptions) (event : SessionEvent) :
    (connected.turn options event).Streams streamOptions := by
  rcases turn_stream options connected event with ⟨stream, hmem, hturned⟩ | hnone
  · have hreached : ∃ events,
        stream = Run.final (BackendStream.step streamOptions) .start events := by
      cases hstream : connected.stream with
      | some before =>
          rw [hstream, Option.some_or] at hmem
          exact h stream (hstream.trans hmem)
      | none =>
          rw [hstream, Option.none_or] at hmem
          exact ⟨[], (Option.some.inj hmem).symm⟩
    obtain ⟨events, hevents⟩ := hreached
    intro after hafter
    rcases hturned with hsame | hstopped
    · obtain rfl := Option.some.inj (hsame.symm.trans hafter)
      exact ⟨events, hevents⟩
    · obtain rfl := Option.some.inj (hstopped.symm.trans hafter)
      refine ⟨events ++ [.stop], ?_⟩
      rw [Run.final_append, ← hevents]
      rfl
  · intro after hafter
    cases hnone.symm.trans hafter

theorem Streams.callBack (h : connected.Streams streamOptions) (callback : StatusCall) :
    (connected.callBack options callback).Streams streamOptions := by
  cases callback with
  | returns => exact h
  | throws => exact h
  | stops => exact h.turn .stop

theorem Streams.step (h : connected.Streams streamOptions) (event : ConnectedEvent) :
    (connected.step options streamOptions event).Streams streamOptions := by
  have hmoved := step_moved options streamOptions connected event
  generalize connected.step options streamOptions event = next at hmoved ⊢
  cases hmoved with
  | kept => exact h
  | turned event => exact h.turn event
  | calledBack callback => exact h.callBack callback
  | opened stream socket callback hstream hlive =>
      obtain ⟨status, hopens⟩ := opens_stream options streamOptions connected hlive callback
      exact h.next hstream hopens
  | closed stream socket callback hstream hlive =>
      obtain ⟨status, hcloses⟩ := closes_stream options streamOptions connected hlive callback
      exact h.next hstream hcloses
  | streamed stream event hstream => exact h.next hstream rfl
  | reported online callback =>
      refine Streams.callBack (Streams.turn ?_ _) callback
      exact h

end Stream

/-- What the lifecycle says of the transports is true of them. -/
structure Truthful (connected : ConnectedSession) : Prop where
  stands : connected.session.Stands
  tells : connected.session.Tells
  nodup : connected.session.onlineTransports.Nodup
  backend : .backend ∈ connected.session.onlineTransports ↔ connected.opened ≠ []
  supabase : .supabase ∈ connected.session.onlineTransports ↔ connected.subscribed = true
  started : connected.stream.isSome = true ↔ .backend ∈ connected.session.started
  opened : ∀ id ∈ connected.opened, ∃ stream ∈ connected.stream, stream.live id = true

section Truthful

variable {options : SyncOptions} {streamOptions : StreamOptions} {connected : ConnectedSession}
  {stream : BackendStream}

theorem truthful_start : Truthful {} := by
  refine ⟨SyncSession.stands_start, fun _ => rfl, List.nodup_nil, ?_, ?_, ?_, ?_⟩
  · decide
  · decide
  · decide
  · exact fun id hmem => absurd hmem List.not_mem_nil

/-- A turn without a report keeps the truth. -/
theorem Truthful.turn (h : connected.Truthful) {event : SessionEvent}
    (hreport : ∀ transport online, event ≠ .status transport online) :
    (connected.turn options event).Truthful := by
  have hkeeps := SyncSession.step_keeps options connected.session hreport
  refine ⟨h.stands.step event, hkeeps.tells h.tells, ?_, ?_, ?_, ?_, ?_⟩
  · change (SyncSession.step options connected.session event).onlineTransports.Nodup
    rw [hkeeps.transports]
    exact h.nodup
  · change .backend ∈ (SyncSession.step options connected.session event).onlineTransports ↔ _
    rw [hkeeps.transports]
    exact h.backend
  · change .supabase ∈ (SyncSession.step options connected.session event).onlineTransports ↔ _
    rw [hkeeps.transports]
    exact h.supabase
  · have hstream : (connected.turn options event).stream.isSome =
        (connected.stream.or (if .backend ∈
          (SyncSession.step options connected.session event).started then some .start
            else none)).isSome := by
      dsimp only [ConnectedSession.turn]
      split
      · exact Option.isSome_map
      · rfl
    rw [hstream]
    change _ ↔ .backend ∈ (SyncSession.step options connected.session event).started
    have hmono : connected.stream.isSome = true →
        .backend ∈ (SyncSession.step options connected.session event).started :=
      fun hsome => hkeeps.started (h.started.mp hsome)
    split
    · rename_i hstarted
      simp [hstarted]
    · rename_i hunstarted
      simp only [Option.or_none, iff_false_right hunstarted]
      exact fun hsome => hunstarted (hmono hsome)
  · intro id hmem
    obtain ⟨stream, hstream, hlive⟩ := h.opened id hmem
    rw [Option.mem_def] at hstream
    dsimp only [ConnectedSession.turn]
    rw [hstream]
    simp only [Option.some_or, Option.map_some]
    split
    · exact ⟨stream.stop, rfl, by simpa using hlive⟩
    · exact ⟨stream, rfl, hlive⟩

theorem Truthful.callBack (h : connected.Truthful) (callback : StatusCall) :
    (connected.callBack options callback).Truthful := by
  cases callback with
  | returns => exact h
  | throws => exact h
  | stops => exact h.turn (by simp)

/-- A report keeps the truth where it tells what became of the transport. -/
theorem Truthful.report (h : connected.Truthful) {transport : Transport} {online : Bool}
    {stream : Option BackendStream} {opened : List Nat} {subscribed : Bool}
    (hstarted : transport ∈ connected.session.started)
    (hstream : stream.isSome = connected.stream.isSome)
    (hbackend : (if .backend = transport then online = true else connected.opened ≠ []) ↔
      opened ≠ [])
    (hsupabase : (if .supabase = transport then online = true
      else connected.subscribed = true) ↔ subscribed = true)
    (hopened : ∀ id ∈ opened, ∃ next ∈ stream, next.live id = true) (callback : StatusCall) :
    (ConnectedSession.report options
      { connected with stream := stream, opened := opened, subscribed := subscribed }
      transport online callback).Truthful := by
  refine Truthful.callBack ?_ callback
  have hturn : ConnectedSession.turn options
      { connected with stream := stream, opened := opened, subscribed := subscribed }
      (.status transport online) =
        { session := connected.session.reportTransport transport online
          stream := stream, opened := opened, subscribed := subscribed } := by
    have hstep : SyncSession.step options connected.session (.status transport online) =
        connected.session.reportTransport transport online := by
      simp [SyncSession.step, hstarted]
    have hsame : (connected.session.reportTransport transport online).started =
        connected.session.started ∧
          (connected.session.reportTransport transport online).stopped =
            connected.session.stopped := ⟨rfl, rfl⟩
    have hor : stream.or (if .backend ∈ connected.session.started then some .start else none) =
        stream := by
      cases hsome : stream with
      | some started => rfl
      | none =>
          have hnot : .backend ∉ connected.session.started := by
            rw [← h.started, ← hstream, hsome]
            simp
          simp [hnot]
    unfold ConnectedSession.turn
    dsimp only
    rw [hstep, hsame.1, hsame.2, hor]
    simp
  rw [hturn]
  refine ⟨SyncSession.stands_connectivity (by exact h.stands) _,
    SyncSession.reportTransport_tells h.stands transport online,
    SyncSession.nodup_heard h.nodup transport online, ?_, ?_, ?_, hopened⟩
  · refine Iff.trans ?_ hbackend
    rw [← h.backend]
    exact SyncSession.mem_heard h.nodup transport .backend online
  · refine Iff.trans ?_ hsupabase
    rw [← h.supabase]
    exact SyncSession.mem_heard h.nodup transport .supabase online
  · change stream.isSome = true ↔ .backend ∈ connected.session.started
    rw [hstream]
    exact h.started

/-- A change of the stream that leaves its sockets keeps the truth. -/
theorem Truthful.streamed (h : connected.Truthful) {next : Option BackendStream}
    (hsome : next.isSome = connected.stream.isSome)
    (hlive : ∀ stream ∈ connected.stream, ∃ after ∈ next,
      ∀ id ∈ connected.opened, stream.live id = true → after.live id = true) :
    Truthful { connected with stream := next } := by
  refine ⟨h.stands, h.tells, h.nodup, h.backend, h.supabase, ?_, ?_⟩
  · change next.isSome = true ↔ _
    rw [hsome]
    exact h.started
  · intro id hmem
    obtain ⟨stream, hstream, hbefore⟩ := h.opened id hmem
    obtain ⟨after, hafter, hkept⟩ := hlive stream hstream
    exact ⟨after, hafter, hkept id hmem hbefore⟩

theorem Truthful.opens (h : connected.Truthful) (hstream : connected.stream = some stream)
    {socket : Nat} (hlive : stream.live socket = true) (callback : StatusCall) :
    (connected.opens options stream socket callback).Truthful := by
  have hstarted : .backend ∈ connected.session.started := h.started.mp (by simp [hstream])
  refine h.report hstarted (by simp [hstream]) ?_ (by simp) ?_ callback
  · simp only [if_true, true_iff]
    exact List.ne_nil_of_mem List.mem_insert_self
  · intro id hmem
    refine ⟨_, rfl, ?_⟩
    rcases List.mem_insert_iff.mp hmem with rfl | hbefore
    · exact hlive
    · obtain ⟨before, hbefore, hid⟩ := h.opened id hbefore
      obtain rfl := Option.some.inj (hstream.symm.trans hbefore)
      exact hid

/-- The socket that closes was the only one: nothing of the stream is open after it. -/
theorem Truthful.closes (h : connected.Truthful) (hstream : connected.stream = some stream)
    (hone : stream.sockets.length ≤ 1) {socket : Nat} (hlive : stream.live socket = true)
    (callback : StatusCall) : (connected.closes options stream socket callback).Truthful := by
  have hstarted : .backend ∈ connected.session.started := h.started.mp (by simp [hstream])
  have hnone : connected.opened.filter (· ≠ socket) = [] := by
    rw [List.filter_eq_nil_iff]
    intro id hmem
    obtain ⟨before, hbefore, hid⟩ := h.opened id hmem
    obtain rfl := Option.some.inj (hstream.symm.trans hbefore)
    simpa using BackendStream.live_unique hone hlive hid
  have hreported : (ConnectedSession.report options
      { connected with stream := some (stream.without socket), opened := [] }
      .backend false callback).Truthful :=
    h.report hstarted (by simp [hstream]) (by simp) (by simp) (by simp) callback
  dsimp only [ConnectedSession.closes]
  rw [hnone]
  split
  · exact hreported
  · refine hreported.streamed (by simp) ?_
    intro before hbefore
    refine ⟨before.reconnectLater, by simp [Option.mem_def.mp hbefore], fun id _ hid => ?_⟩
    simpa [BackendStream.live] using hid

theorem Truthful.step (h : connected.Truthful) (hstreams : connected.Streams streamOptions)
    (event : ConnectedEvent) : (connected.step options streamOptions event).Truthful := by
  have hmoved := step_moved options streamOptions connected event
  generalize connected.step options streamOptions event = next at hmoved ⊢
  cases hmoved with
  | kept => exact h
  | turned event hreport => exact h.turn hreport
  | calledBack callback => exact h.callBack callback
  | opened stream socket callback hstream hlive => exact h.opens hstream hlive callback
  | closed stream socket callback hstream hlive =>
      obtain ⟨events, hevents⟩ := hstreams stream hstream
      have hone : stream.sockets.length ≤ 1 := by
        rw [hevents]
        exact BackendStream.run_one_socket streamOptions events
      exact h.closes hstream hone hlive callback
  | streamed stream event hstream hcloses =>
      refine h.streamed (by simp [hstream]) ?_
      intro before hbefore
      obtain rfl := Option.some.inj (hstream.symm.trans hbefore)
      exact ⟨_, rfl, fun id _ hid => BackendStream.live_step streamOptions hcloses hid⟩
  | reported online callback hstarted =>
      exact h.report hstarted rfl (by simp) (by simp) h.opened callback

theorem Truthful.connected_iff (h : connected.Truthful) :
    connected.Connected ↔ connected.session.onlineTransports.isEmpty = false := by
  have hopen : (∃ stream ∈ connected.stream, ∃ socket ∈ stream.sockets,
      socket.id ∈ connected.opened) ↔ .backend ∈ connected.session.onlineTransports := by
    rw [h.backend]
    constructor
    · rintro ⟨stream, -, socket, -, hmem⟩
      exact List.ne_nil_of_mem hmem
    · intro hopened
      obtain ⟨id, hmem⟩ := List.exists_mem_of_ne_nil _ hopened
      obtain ⟨stream, hstream, hlive⟩ := h.opened id hmem
      obtain ⟨socket, hsocket, rfl⟩ := (BackendStream.live_iff id).mp hlive
      exact ⟨stream, hstream, socket, hsocket, hmem⟩
  rw [Connected, hopen, ← h.supabase, List.isEmpty_eq_false_iff_exists_mem]
  constructor
  · rintro (hbackend | hsupabase)
    · exact ⟨.backend, hbackend⟩
    · exact ⟨.supabase, hsupabase⟩
  · rintro ⟨transport, hmem⟩
    cases transport with
    | backend => exact Or.inl hmem
    | supabase => exact Or.inr hmem

end Truthful

section Serving

variable {options : SyncOptions} {streamOptions : StreamOptions} {connected : ConnectedSession}

theorem turn_serving {event : SessionEvent}
    (hserving : Serving (connected.turn options event).session.lifecycle) :
    Serving connected.session.lifecycle :=
  SyncSession.step_serving options connected.session event hserving

theorem callBack_serving {callback : StatusCall}
    (hserving : Serving (connected.callBack options callback).session.lifecycle) :
    Serving connected.session.lifecycle := by
  cases callback with
  | returns => exact hserving
  | throws => exact hserving
  | stops => exact turn_serving hserving

theorem report_serving {transport : Transport} {online : Bool} {callback : StatusCall}
    (hserving : Serving (connected.report options transport online callback).session.lifecycle) :
    Serving connected.session.lifecycle :=
  turn_serving (callBack_serving hserving)

theorem closes_serving {stream : BackendStream} {socket : Nat} {callback : StatusCall}
    (hserving : Serving (connected.closes options stream socket callback).session.lifecycle) :
    Serving connected.session.lifecycle := by
  have hreported : (connected.closes options stream socket callback).session =
      (ConnectedSession.report options
        { connected with
          stream := some (stream.without socket)
          opened := connected.opened.filter (· ≠ socket) }
        .backend false callback).session := by
    dsimp only [closes]
    split
    · rfl
    · rfl
  rw [hreported] at hserving
  have hbefore := report_serving hserving
  exact hbefore

/-- Whatever its transports still report, a session that has ended stays so. -/
theorem step_serving (event : ConnectedEvent)
    (hserving : Serving (connected.step options streamOptions event).session.lifecycle) :
    Serving connected.session.lifecycle := by
  have hmoved := step_moved options streamOptions connected event
  generalize connected.step options streamOptions event = next at hmoved hserving
  cases hmoved with
  | kept => exact hserving
  | turned event => exact turn_serving hserving
  | calledBack callback => exact callBack_serving hserving
  | opened stream socket callback =>
      have hbefore := report_serving hserving
      exact hbefore
  | closed stream socket callback =>
      have hbefore := closes_serving hserving
      exact hbefore
  | streamed stream event => exact hserving
  | reported online callback =>
      have hbefore := report_serving hserving
      exact hbefore

end Serving

/-- In every run of a session with its transports, its lifecycle tells the truth about them:
a client receives changes until the session ends, may write once the startup has succeeded,
and may flush exactly while besides a socket of the backend is open or the channel is
subscribed. The stream runs as that of a lone backend and has one socket at most, and no
late report reopens a session that has ended. -/
theorem capabilities_follow_transports (options : SyncOptions) (streamOptions : StreamOptions)
    (events : List ConnectedEvent) :
    let reached := Run.final (step options streamOptions) {} events
    let lifecycle := reached.session.lifecycle
    let capabilities := appCapabilities lifecycle
    (capabilities.canReceiveChanges = true ↔ Serving lifecycle) ∧
      (capabilities.canWrite = true ↔ Serving lifecycle ∧
        (reached.session.stage = .flushing ∨ reached.session.stage = .returned)) ∧
      (capabilities.canFlush = true ↔ capabilities.canWrite = true ∧ reached.Connected) ∧
      (Serving lifecycle → (lifecycle.online = true ↔ reached.Connected)) ∧
      (∀ stream ∈ reached.stream, stream.sockets.length ≤ 1 ∧
        ∃ events, stream = Run.final (BackendStream.step streamOptions) .start events) ∧
      (∀ later, ¬ Serving lifecycle →
        ¬ Serving (Run.final (step options streamOptions) reached later).session.lifecycle) := by
  intro reached lifecycle capabilities
  have hinv : reached.Truthful ∧ reached.Streams streamOptions := by
    refine Run.preserved (J := fun connected : ConnectedSession =>
      connected.Truthful ∧ connected.Streams streamOptions) ?_ events ⟨truthful_start, ?_⟩
    · rintro connected event ⟨htruthful, hstreams⟩
      exact ⟨htruthful.step hstreams event, hstreams.step event⟩
    · exact fun stream hmem => absurd hmem (by simp)
  obtain ⟨htruthful, hstreams⟩ := hinv
  obtain ⟨hreceives, hwrites, hflushes⟩ :=
    SyncSession.capabilities_of_valid htruthful.stands.valid
  have honline : Serving lifecycle → (lifecycle.online = true ↔ reached.Connected) := by
    intro hserving
    rw [htruthful.connected_iff, htruthful.tells hserving]
    simp
  refine ⟨hreceives, hwrites.trans htruthful.stands.running_iff, ?_, honline, ?_, ?_⟩
  · rw [hflushes, ← hwrites]
    refine and_congr_right fun hcan => honline ?_
    exact Or.inr (hwrites.mp hcan)
  · intro stream hmem
    obtain ⟨taken, hstream⟩ := hstreams stream hmem
    refine ⟨?_, taken, hstream⟩
    rw [hstream]
    exact BackendStream.run_one_socket streamOptions taken
  · intro later hended
    exact Run.preserved
      (J := fun connected : ConnectedSession => ¬ Serving connected.session.lifecycle)
      (fun _ event hbefore hafter => hbefore (step_serving event hafter)) later hended

end ConnectedSession

end ZedSync.Js
