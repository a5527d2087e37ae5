import Mathlib.Algebra.Group.Nat.Defs
import ZedSync.Lib.Run

/-!
The read stream of the backend transport (`startBackendStream` in
`sdk/src/transports/backend.mjs`): an asynchronous `connect`, the handlers of the socket it
creates and the timer a closed socket arms. Each hands over to the next. Nothing handles a
token that is refused or a constructor that throws, so there the chain ends with the
stream still running. Messages leave all of this as it is.
-/

namespace ZedSync.Js

/-- What the stream is started with. The encoding of a token in a query is the platform's. -/
structure StreamOptions where
  baseUrl : String
  wsPath : String
  token : Option String
  hasGetToken : Bool
  encodeURIComponent : String → String

/-- `baseUrl.replace(/^http/, "ws").replace(/\/+$/, "") + wsPath`. -/
def StreamOptions.url (options : StreamOptions) : String :=
  let chars := options.baseUrl.toList
  let scheme := if "http".toList.isPrefixOf chars then "ws".toList ++ chars.drop 4 else chars
  String.ofList (scheme.reverse.dropWhile (· = '/')).reverse ++ options.wsPath

/-- `authedUrl` with the token its `getToken` resolved to. -/
def StreamOptions.authedUrl (options : StreamOptions) (resolved : Option String) : String :=
  let url := options.url
  match if options.hasGetToken then resolved else options.token with
  | none => url
  | some token =>
      if token = "" then url
      else url ++ (if url.toList.contains '?' then "&" else "?") ++ "access_token=" ++
        options.encodeURIComponent token

/-- A socket from its creation to its close event. -/
structure Socket where
  id : Nat
  target : String
  closing : Bool
  deriving DecidableEq

/-- The variables of the stream, and what is under way. -/
structure BackendStream where
  stopped : Bool
  attempt : Nat
  resolving : Nat
  sockets : List Socket
  ws : Option Nat
  created : Nat
  timers : List Nat
  deriving DecidableEq

/-- What the callback for a status does before it returns, or that it throws. -/
inductive StatusCall where
  | returns
  | stops
  | throws
  deriving DecidableEq

inductive StreamEvent where
  /-- A token arrives, and the constructor builds a socket or throws. -/
  | tokenResolves (token : Option String) (built : Bool)
  | tokenRejects
  | opens (socket : Nat) (status : StatusCall)
  | errors (socket : Nat)
  | closes (socket : Nat) (status : StatusCall)
  | timerFires (index : Nat)
  | stop

namespace BackendStream

/-- `connect`, up to the token. -/
def connect (stream : BackendStream) : BackendStream :=
  if stream.stopped then stream else { stream with resolving := stream.resolving + 1 }

/-- The stream as `startBackendStream` leaves it. -/
def start : BackendStream :=
  connect
    { stopped := false, attempt := 0, resolving := 0, sockets := [], ws := none, created := 0,
      timers := [] }

def live (stream : BackendStream) (id : Nat) : Bool := stream.sockets.any (·.id = id)

/-- `ws?.close()`: the close event is still to come. -/
def closeWs (stream : BackendStream) : BackendStream :=
  { stream with
    sockets := stream.sockets.map fun socket =>
      if stream.ws = some socket.id then { socket with closing := true } else socket }

def stop (stream : BackendStream) : BackendStream := closeWs { stream with stopped := true }

/-- `onStatus`, which may come back into `stop`. -/
def onStatus (stream : BackendStream) : StatusCall → BackendStream
  | .stops => stream.stop
  | .returns | .throws => stream

/-- The rest of `onclose`. -/
def reconnectLater (stream : BackendStream) : BackendStream :=
  if stream.stopped then stream
  else
    { stream with
      attempt := stream.attempt + 1
      timers := stream.timers ++ [min 30000 (500 * 2 ^ stream.attempt)] }

/-- The stream without a socket that has closed. -/
def without (stream : BackendStream) (id : Nat) : BackendStream :=
  { stream with sockets := stream.sockets.filter (·.id ≠ id) }

/-- The stream without a timer that has fired. -/
def fired (stream : BackendStream) (index : Nat) : BackendStream :=
  { stream with timers := stream.timers.eraseIdx index }

/-- One event. What nothing is waiting for changes nothing. -/
def step (options : StreamOptions) (stream : BackendStream) : StreamEvent → BackendStream
  | .tokenResolves token built =>
      if stream.resolving = 0 then stream
      else
        let resumed := { stream with resolving := stream.resolving - 1 }
        if stream.stopped || !built then resumed
        else
          { resumed with
            sockets := stream.sockets ++
              [{ id := stream.created, target := options.authedUrl token, closing := false }]
            ws := some stream.created
            created := stream.created + 1 }
  | .tokenRejects =>
      if stream.resolving = 0 then stream
      else { stream with resolving := stream.resolving - 1 }
  | .opens socket status =>
      if stream.live socket then onStatus { stream with attempt := 0 } status else stream
  | .errors socket => if stream.live socket then stream.closeWs else stream
  | .closes socket status =>
      if stream.live socket then
        let closed := (stream.without socket).onStatus status
        if status = .throws then closed else closed.reconnectLater
      else stream
  | .timerFires index =>
      if index < stream.timers.length then (stream.fired index).connect else stream
  | .stop => stream.stop

/-- A connection attempt is resolving its token. -/
def Resolving (stream : BackendStream) : Prop := 0 < stream.resolving

def Live (stream : BackendStream) : Prop := stream.sockets ≠ []

def Armed (stream : BackendStream) : Prop := stream.timers ≠ []

/-- Exactly one thing carries the stream on. -/
def CarriedOn (stream : BackendStream) : Prop :=
  (stream.Resolving ∧ ¬ stream.Live ∧ ¬ stream.Armed) ∨
    (¬ stream.Resolving ∧ stream.Live ∧ ¬ stream.Armed) ∨
      (¬ stream.Resolving ∧ ¬ stream.Live ∧ stream.Armed)

/-- While it is not stopped, the stream is not wedged either. -/
def Sound (stream : BackendStream) : Prop := stream.stopped = false → stream.CarriedOn

/-- The event hands over to a successor, or there is nothing to hand over: the token of a
running stream is not refused, the constructor and the status callback of a close do not
throw. -/
def HandsOver (stream : BackendStream) : StreamEvent → Prop
  | .tokenResolves _ built => stream.stopped = true ∨ stream.resolving = 0 ∨ built = true
  | .tokenRejects => stream.stopped = true ∨ stream.resolving = 0
  | .closes socket status =>
      stream.stopped = true ∨ stream.live socket = false ∨ status ≠ .throws
  | .opens _ _ | .errors _ | .timerFires _ | .stop => True

/-- How many things carry the stream on. -/
def load (stream : BackendStream) : Nat :=
  stream.resolving + stream.sockets.length + stream.timers.length

theorem carriedOn_iff {stream : BackendStream} (h : stream.load ≤ 1) :
    stream.CarriedOn ↔ stream.load = 1 := by
  have hlive : stream.Live ↔ 0 < stream.sockets.length := List.length_pos_iff.symm
  have harmed : stream.Armed ↔ 0 < stream.timers.length := List.length_pos_iff.symm
  simp only [CarriedOn, Resolving, hlive, harmed]
  simp only [load] at h ⊢
  omega

section Steps

variable {stream : BackendStream}

@[simp] theorem load_closeWs : stream.closeWs.load = stream.load := by
  simp [closeWs, load]

@[simp] theorem load_stop : stream.stop.load = stream.load := by
  simp [stop, closeWs, load]

@[simp] theorem load_onStatus (status : StatusCall) :
    (stream.onStatus status).load = stream.load := by
  cases status <;> simp [onStatus]

@[simp] theorem stopped_closeWs : stream.closeWs.stopped = stream.stopped := rfl

@[simp] theorem stopped_stop : stream.stop.stopped = true := rfl

@[simp] theorem created_closeWs : stream.closeWs.created = stream.created := rfl

@[simp] theorem created_onStatus (status : StatusCall) :
    (stream.onStatus status).created = stream.created := by
  cases status <;> rfl

@[simp] theorem stopped_without (id : Nat) : (stream.without id).stopped = stream.stopped := rfl

@[simp] theorem stopped_fired (index : Nat) : (stream.fired index).stopped = stream.stopped := rfl

theorem stopped_onStatus (h : stream.stopped = true) (status : StatusCall) :
    (stream.onStatus status).stopped = true := by
  cases status <;> simp [onStatus, h]

theorem connect_of_stopped (h : stream.stopped = true) : stream.connect = stream := by
  rw [connect, if_pos h]

theorem reconnectLater_of_stopped (h : stream.stopped = true) :
    stream.reconnectLater = stream := by
  rw [reconnectLater, if_pos h]

theorem load_connect (h : stream.stopped = false) :
    stream.connect.load = stream.load + 1 ∧ stream.connect.stopped = false := by
  simp only [connect, h, Bool.false_eq_true, if_false, load, and_true]
  omega

theorem load_reconnectLater (h : stream.stopped = false) :
    stream.reconnectLater.load = stream.load + 1 ∧ stream.reconnectLater.stopped = false := by
  simp only [reconnectLater, h, Bool.false_eq_true, if_false, load, List.length_append,
    List.length_singleton, and_true]
  omega

/-- Where at most one thing is under way, a live socket is all there is. -/
theorem load_without (hload : stream.load ≤ 1) {id : Nat} (hlive : stream.live id = true) :
    (stream.without id).load = 0 ∧ stream.load = 1 := by
  simp only [live, List.any_eq_true, decide_eq_true_eq] at hlive
  obtain ⟨socket, hmem, rfl⟩ := hlive
  have hpos := List.length_pos_of_mem hmem
  have hother : stream.resolving = 0 ∧ stream.timers.length = 0 ∧ stream.sockets.length = 1 := by
    simp only [load] at hload
    omega
  obtain ⟨only, honly⟩ := List.length_eq_one_iff.mp hother.2.2
  rw [honly, List.mem_singleton] at hmem
  subst hmem
  simp [without, load, hother, honly]

theorem load_fired (hload : stream.load ≤ 1) {index : Nat}
    (hindex : index < stream.timers.length) :
    (stream.fired index).load = 0 ∧ stream.load = 1 := by
  simp only [fired, load, List.length_eraseIdx, hindex, if_true] at hload ⊢
  omega

variable (options : StreamOptions)

/-- Once stopped, the stream stays so and creates nothing. -/
theorem step_stopped (h : stream.stopped = true) (event : StreamEvent) :
    (step options stream event).stopped = true ∧
      (step options stream event).created = stream.created := by
  cases event with
  | tokenResolves token built =>
      simp only [step, h, Bool.true_or, if_true]
      split
      · exact ⟨h, rfl⟩
      · exact ⟨rfl, rfl⟩
  | tokenRejects =>
      simp only [step]
      split
      · exact ⟨h, rfl⟩
      · exact ⟨h, rfl⟩
  | opens socket status =>
      simp only [step]
      split
      · refine ⟨stopped_onStatus ?_ status, created_onStatus status⟩
        exact h
      · exact ⟨h, rfl⟩
  | errors socket =>
      simp only [step]
      split
      · exact ⟨h, rfl⟩
      · exact ⟨h, rfl⟩
  | closes socket status =>
      have hwithout : (stream.without socket).stopped = true := h
      have hstopped := stopped_onStatus hwithout status
      simp only [step, reconnectLater_of_stopped hstopped, ite_self]
      split
      · exact ⟨hstopped, created_onStatus status⟩
      · exact ⟨h, rfl⟩
  | timerFires index =>
      have hstopped : (stream.fired index).stopped = true := h
      simp only [step, connect_of_stopped hstopped]
      split
      · exact ⟨h, rfl⟩
      · exact ⟨h, rfl⟩
  | stop => exact ⟨rfl, rfl⟩

/-- What one event does to a running stream with at most one thing under way. -/
structure StepEffect (before after : BackendStream) (handsOver : Prop) : Prop where
  bounded : after.load ≤ 1
  kept : handsOver → after.stopped = true ∨ after.load = before.load
  lost : ¬ handsOver → after.stopped = false ∧ before.load = 1 ∧ after.load = 0

theorem StepEffect.same {handsOver : Prop} {after : BackendStream} (hload : stream.load ≤ 1)
    (hsame : after.load = stream.load) (hover : handsOver) : StepEffect stream after handsOver :=
  ⟨by omega, fun _ => Or.inr hsame, fun h => absurd hover h⟩

theorem StepEffect.stops {handsOver : Prop} {after : BackendStream} (hload : after.load ≤ 1)
    (hstopped : after.stopped = true) (hover : handsOver) : StepEffect stream after handsOver :=
  ⟨hload, fun _ => Or.inl hstopped, fun h => absurd hover h⟩

/-- The one thing under way is gone, and nothing has taken its place. -/
theorem StepEffect.ends {handsOver : Prop} {after : BackendStream}
    (hrunning : after.stopped = false) (hone : stream.load = 1) (hempty : after.load = 0)
    (hover : ¬ handsOver) : StepEffect stream after handsOver :=
  ⟨by omega, fun h => absurd h hover, fun _ => ⟨hrunning, hone, hempty⟩⟩

theorem step_closes_effect (hrunning : stream.stopped = false) (hload : stream.load ≤ 1)
    {socket : Nat} (hlive : stream.live socket = true) (status : StatusCall) :
    StepEffect stream (step options stream (.closes socket status))
      (stream.HandsOver (.closes socket status)) := by
  obtain ⟨hempty, hone⟩ := load_without hload hlive
  have hrunning' : (stream.without socket).stopped = false := hrunning
  cases status with
  | returns =>
      have hlater := load_reconnectLater hrunning'
      apply StepEffect.same hload _ (Or.inr (Or.inr (by simp)))
      simp [step, hlive, onStatus, hlater, hempty, hone]
  | stops =>
      have hstopped : (stream.without socket).stop.stopped = true := rfl
      have hafter : step options stream (.closes socket .stops) =
          (stream.without socket).stop := by
        simp [step, hlive, onStatus, reconnectLater_of_stopped hstopped]
      rw [hafter]
      apply StepEffect.stops _ hstopped (Or.inr (Or.inr (by simp)))
      rw [load_stop, hempty]
      omega
  | throws =>
      have hafter : step options stream (.closes socket .throws) = stream.without socket := by
        simp [step, hlive, onStatus]
      rw [hafter]
      exact .ends hrunning' hone hempty (by simp [HandsOver, hrunning, hlive])

theorem step_effect (hrunning : stream.stopped = false) (hload : stream.load ≤ 1)
    (event : StreamEvent) :
    StepEffect stream (step options stream event) (stream.HandsOver event) := by
  have hresolving (h : ¬ stream.resolving = 0) : stream.resolving = 1 ∧
      stream.sockets.length = 0 ∧ stream.timers.length = 0 := by
    simp only [load] at hload
    omega
  cases event with
  | tokenResolves token built =>
      by_cases hnone : stream.resolving = 0
      · have hsame : step options stream (.tokenResolves token built) = stream := by
          simp [step, hnone]
        rw [hsame]
        exact .same hload rfl (Or.inr (Or.inl hnone))
      · have hone := hresolving hnone
        cases built with
        | true =>
            apply StepEffect.same hload _ (Or.inr (Or.inr rfl))
            simp [step, hrunning, load, hone]
        | false =>
            apply StepEffect.ends
            · simp [step, hrunning, hone]
            · simp [load, hone]
            · simp [step, hrunning, load, hone]
            · simp [HandsOver, hrunning, hone]
  | tokenRejects =>
      by_cases hnone : stream.resolving = 0
      · have hsame : step options stream .tokenRejects = stream := by simp [step, hnone]
        rw [hsame]
        exact .same hload rfl (Or.inr hnone)
      · have hone := hresolving hnone
        apply StepEffect.ends
        · simp [step, hrunning, hone]
        · simp [load, hone]
        · simp [step, load, hone]
        · simp [HandsOver, hrunning, hone]
  | opens socket status =>
      apply StepEffect.same hload _ trivial
      simp only [step]
      split
      · exact load_onStatus status
      · rfl
  | errors socket =>
      apply StepEffect.same hload _ trivial
      simp only [step]
      split
      · exact load_closeWs
      · rfl
  | closes socket status =>
      cases hlive : stream.live socket with
      | false =>
          apply StepEffect.same hload _ (Or.inr (Or.inl hlive))
          simp [step, hlive]
      | true => exact step_closes_effect options hrunning hload hlive status
  | timerFires index =>
      by_cases hindex : index < stream.timers.length
      · obtain ⟨hempty, hone⟩ := load_fired hload hindex
        have hrunning' : (stream.fired index).stopped = false := hrunning
        have hconnect := load_connect hrunning'
        apply StepEffect.same hload _ trivial
        simp [step, hindex, hconnect, hempty, hone]
      · apply StepEffect.same hload _ trivial
        simp [step, hindex]
  | stop =>
      apply StepEffect.stops _ rfl trivial
      rw [step, load_stop]
      exact hload

/-- A sound stream stays so exactly on the events that hand over. -/
theorem step_sound_iff (hload : stream.stopped = true ∨ stream.load ≤ 1) (hsound : stream.Sound)
    (event : StreamEvent) :
    (step options stream event).Sound ↔ stream.HandsOver event := by
  cases hstopped : stream.stopped with
  | true =>
      have hafter := (step_stopped options hstopped event).1
      have hsound' : (step options stream event).Sound := by
        intro hrunning
        rw [hafter] at hrunning
        cases hrunning
      refine ⟨fun _ => ?_, fun _ => hsound'⟩
      cases event with
      | tokenResolves _ _ => exact Or.inl hstopped
      | tokenRejects => exact Or.inl hstopped
      | closes _ _ => exact Or.inl hstopped
      | opens _ _ => trivial
      | errors _ => trivial
      | timerFires _ => trivial
      | stop => trivial
  | false =>
      have hle : stream.load ≤ 1 := by simpa [hstopped] using hload
      have hone := (carriedOn_iff hle).mp (hsound hstopped)
      have heffect := step_effect options hstopped hle event
      have hcarried := carriedOn_iff heffect.bounded
      by_cases hover : stream.HandsOver event
      · refine ⟨fun _ => hover, fun _ hrunning => hcarried.mpr ?_⟩
        rcases heffect.kept hover with hend | hsame
        · rw [hend] at hrunning
          cases hrunning
        · rw [hsame, hone]
      · obtain ⟨hrunning, -, hzero⟩ := heffect.lost hover
        refine ⟨fun hafter => ?_, fun h => absurd h hover⟩
        have hload' := hcarried.mp (hafter hrunning)
        omega

end Steps

/-- At most one thing is under way until the stream is stopped. -/
theorem step_stopped_or_load (options : StreamOptions) (stream : BackendStream)
    (event : StreamEvent) (h : stream.stopped = true ∨ stream.load ≤ 1) :
    (step options stream event).stopped = true ∨ (step options stream event).load ≤ 1 := by
  cases hstopped : stream.stopped with
  | true => exact Or.inl (step_stopped options hstopped event).1
  | false =>
      have hle : stream.load ≤ 1 := by simpa [hstopped] using h
      exact Or.inr (step_effect options hstopped hle event).bounded

theorem created_after_stop (options : StreamOptions) (stream : BackendStream)
    (h : stream.stopped = true) (events : List StreamEvent) :
    (Run.final (step options) stream events).created = stream.created := by
  induction events generalizing stream with
  | nil => rfl
  | cons event events ih =>
      obtain ⟨hstopped, hcreated⟩ := step_stopped options h event
      rw [Run.final_cons, ih _ hstopped, hcreated]

/-- In every run the stream is carried on by exactly one thing until it is stopped, exactly
when each event of the run hands over; and no run creates a socket after a stop, be it an
event of its own or a call inside `onStatus`. -/
theorem stream_sound_iff (options : StreamOptions) (events : List StreamEvent) :
    (Run.Along (step options) (fun stream event => (step options stream event).Sound) start
        events ↔
      Run.Along (step options) HandsOver start events) ∧
    (∀ before after, events = before ++ .stop :: after →
      (Run.final (step options) start events).created =
        (Run.final (step options) start before).created) ∧
    ∀ before after, events = before ++ after →
      (Run.final (step options) start before).stopped = true →
        (Run.final (step options) start events).created =
          (Run.final (step options) start before).created := by
  refine ⟨?_, ?_, ?_⟩
  · apply Run.along_good_iff (step_stopped_or_load options · ·)
    · intro stream event hload hsound
      exact step_sound_iff options hload hsound event
    · exact Or.inr (by decide)
    · intro _
      exact Or.inl ⟨Nat.one_pos, fun h => h rfl, fun h => h rfl⟩
  · rintro before after rfl
    rw [Run.final_append, Run.final_cons]
    exact created_after_stop options _ rfl after
  · rintro before after rfl hstopped
    rw [Run.final_append]
    exact created_after_stop options _ hstopped after

/-- A token that is refused leaves the stream running with nothing to carry it on. -/
theorem rejected_token_wedges :
    ¬ ∀ (options : StreamOptions) (events : List StreamEvent),
      Run.Along (step options) (fun stream event => (step options stream event).Sound) start
        events := by
  intro hall
  obtain ⟨hsound, -⟩ := hall
    { baseUrl := "https://api.example.com", wsPath := "/ws", token := none, hasGetToken := true,
      encodeURIComponent := fun text => text } [.tokenRejects]
  rcases hsound rfl with ⟨hresolving, -, -⟩ | ⟨-, hlive, -⟩ | ⟨-, -, harmed⟩
  · exact Nat.lt_irrefl 0 hresolving
  · exact hlive rfl
  · exact harmed rfl

end BackendStream

end ZedSync.Js
