import ZedSync.DeliveryStages

/-!
One `server_first` write against the feed of its row, in both clients. The write
touches the row once, when its response is in: it puts the committed version
with the payload it sent, whatever the feed delivered meanwhile. A delivery puts
what it decided on at its read, whatever came in between.
-/

namespace ZedSync

open Async

/-- What the write has learned: its own stamp, and the version the server committed it
at. -/
structure Served where
  stamp : Option Hlc := none
  committed : Option Hlc := none

/-- Where the write and a delivery stand. -/
inductive FeedStage where
  | serving (served : Served)
  | delivering (version : Hlc) (reader : Reader Hlc)

section Room

variable {I : Interface} {ρ : Type} (cell : Cell I ρ Hlc (Option Json))
  (learns : (action : I.Action) → I.Reply action → Served → Served) (sent : Option Json)
  (changes : List ChangeEvent)

namespace FeedStage

/-- The write puts what it sent at the committed version, a delivery its own version where
the row it read allows. -/
def Next : Stages I FeedStage
  | .serving served, action, reply, after =>
      (∀ put, cell.puts action = some put →
        served.committed = some (cell.version put) ∧ cell.payload put = sent) ∧
        after = .serving (learns action reply served)
  | .delivering version reader, action, reply, after =>
      ∃ later, reader.Next cell version action reply later ∧ after = .delivering version later

/-- What a run writes down: what each thread has missed, and what the write, as thread 0,
has learned. -/
def mark (thread : Nat) (action : I.Action) (input : I.Input) (world : I.World)
    (history : Missed (Option Hlc) × Served) : Missed (Option Hlc) × Served :=
  (cell.window.mark thread action input world history.1,
    if thread = 0 then learns action (I.perform action input world).1 history.2 else history.2)

end FeedStage

/-- Whoever puts finds room. The response finds the row absent, below the committed version,
or there with the payload that was sent; a delivery has missed nothing above its change
since it read the row. -/
def FindsRoom (history : Missed (Option Hlc) × Served) (thread : Nat) (action : I.Action)
    (_ : I.Input) (world : I.World) : Prop :=
  (cell.puts action).isSome = true →
    match thread with
    | 0 => ∀ committed, history.2.committed = some committed →
        ∀ current, cell.stored world = some current → cell.version current < committed ∨
          cell.version current = committed ∧ cell.payload current = sent
    | i + 1 => ∀ change, changes[i]? = some change →
        ∀ taken, some taken ∈ history.1 (i + 1) → taken ≤ change.version

namespace FeedStage

/-- What the write and the deliveries know. -/
def Knows (thread : Nat) (stage : FeedStage)
    (state : I.World × Missed (Option Hlc) × Served) : Prop :=
  match stage with
  | .serving served => thread = 0 ∧ state.2.2 = served
  | .delivering version reader =>
      (∃ i change, thread = i + 1 ∧ changes[i]? = some change ∧ change.version = version) ∧
        reader.Sees cell thread state.1 state.2.1

variable {cell learns sent changes} {thread : Nat} {stage after : FeedStage} {action : I.Action}
  {input : I.Input} {world : I.World} {history : Missed (Option Hlc) × Served}

/-- Where everybody knows what they should, room is what keeps a put from landing behind. -/
theorem ahead_iff_room (hbounds : cell.Bounds world history.1)
    (hknows : Knows cell changes thread stage (world, history))
    (hnext : Next cell learns sent stage action (I.perform action input world).1 after) :
    cell.Ahead 0 thread action input world ↔
      FindsRoom cell sent changes history thread action input world := by
  unfold Cell.Ahead FindsRoom
  cases hputs : cell.puts action with
  | none => simp
  | some put =>
      simp only [Option.some.injEq, forall_eq', Option.isSome_some, forall_const]
      cases stage with
      | serving served =>
          obtain ⟨rfl, hserved⟩ := hknows
          obtain ⟨hcommitted, hpayload⟩ := hnext.1 put hputs
          rw [hserved, hcommitted]
          simp only [Option.some.injEq, forall_eq', forall_const, hpayload]
          refine forall_congr' fun current => imp_congr_right fun _ => ?_
          constructor
          · rintro ⟨hle, hsame⟩
            rcases hle.lt_or_eq with hlt | heq
            · exact Or.inl hlt
            · exact Or.inr ⟨heq, (hsame heq.symm).symm⟩
          · rintro (hlt | ⟨heq, hsame⟩)
            · exact ⟨hlt.le, fun heq => absurd heq hlt.ne'⟩
            · exact ⟨heq.le, fun _ => hsame.symm⟩
      | delivering version reader =>
          obtain ⟨⟨i, change, rfl, hchange, rfl⟩, hsees⟩ := hknows
          obtain ⟨later, hreads, -⟩ := hnext
          have hfound := Reader.ahead_iff_missed hbounds hsees hputs hreads
          simpa [hchange] using hfound

/-- Room at each put keeps what everybody knows. -/
def upkeep (cell : Cell I ρ Hlc (Option Json))
    (learns : (action : I.Action) → I.Reply action → Served → Served) (sent : Option Json)
    (changes : List ChangeEvent) :
    Upkeep I FeedStage (Missed (Option Hlc) × Served) (FindsRoom cell sent changes) where
  next := Next cell learns sent
  mark := mark cell learns
  Inv state := cell.Bounds state.1 state.2.1
  Knows := Knows cell changes
  own := by
    intro thread stage action input state after hbounds hknows hroom hnext
    have hahead := (ahead_iff_room hbounds hknows hnext).mpr hroom
    refine ⟨hbounds.mark (hahead.rises), ?_⟩
    cases stage with
    | serving served =>
        obtain ⟨rfl, rfl⟩ := hknows
        obtain rfl := hnext.2
        exact ⟨rfl, rfl⟩
    | delivering version reader =>
        obtain ⟨later, hreads, rfl⟩ := hnext
        exact ⟨hknows.1, hknows.2.own hreads⟩
  others := by
    intro thread stage action input state after _ _ _ _ other seen hne hother
    cases seen with
    | serving served =>
        refine ⟨hother.1, ?_⟩
        obtain rfl := hother.1
        simp [mark, hne.symm, hother.2]
    | delivering version reader => exact ⟨hother.1, hother.2.other hne⟩

variable {α : Type} {pool : Pool I α} {schedule : List (Pool.Turn I)}

/-- A delivery is a reader of the row. -/
theorem follows_of_leads {next : Stages I DeliveryStage} {version : Hlc} {start : DeliveryStage}
    {β : Type} {program : Prog I β} (reader : DeliveryStage → Reader Hlc)
    (hnext : ∀ {stage action reply after}, next stage action reply after →
      (reader stage).Next cell version action reply (reader after))
    (h : program.Follows next (fun _ _ => True) start) :
    program.Follows (Next cell learns sent) (fun _ _ => True)
      (.delivering version (reader start)) :=
  h.embed (fun stage => FeedStage.delivering version (reader stage))
    (fun h => ⟨_, hnext h, rfl⟩) fun _ _ h => h

theorem kept_start {first : Prog I α} {deliver : ChangeEvent → Prog I α}
    (hfirst : first.Follows (Next cell learns sent) (fun _ _ => True) (.serving {}))
    (hdeliver : ∀ change, (deliver change).Follows (Next cell learns sent) (fun _ _ => True)
      (.delivering change.version .fresh)) :
    Pool.Kept (upkeep cell learns sent changes)
      { world := world, threads := first :: changes.map deliver } (fun _ => [], {}) := by
  refine ⟨nofun, fun i program hprogram => ?_⟩
  cases i with
  | zero =>
      obtain rfl := Option.some.inj hprogram
      exact ⟨_, hfirst, rfl, rfl⟩
  | succ i =>
      obtain ⟨change, hchange, rfl⟩ := by simpa using hprogram
      exact ⟨_, hdeliver change, ⟨i, change, rfl, hchange, rfl⟩, nofun⟩

/-- A turn that puts nothing needs no room. -/
theorem room_of_quiet {thread : Nat} {input : I.Input} {action : I.Action}
    {rest : I.Reply action → Prog I α}
    (hthread : pool.threads[thread]? = some (.call action rest))
    (hputs : cell.puts action = none) :
    Pool.Takes (FindsRoom cell sent changes history thread) pool (thread, input) := by
  intro action' rest' hthread'
  obtain ⟨rfl, -⟩ : action = action' ∧ HEq rest rest' := by
    simpa using hthread.symm.trans hthread'
  simp [FindsRoom, hputs]

/-- The row is respected in exactly the runs in which every put finds room. -/
theorem respects_iff_room
    (hown : pool.Each fun thread action => thread = 0 → cell.MovesByPut action)
    (hkept : Pool.Kept (upkeep cell learns sent changes) pool history) :
    pool.Along (cell.Respects 0) schedule ↔
      pool.Watched (mark cell learns) (FindsRoom cell sent changes) schedule history := by
  rw [Cell.along_respects_iff hown]
  refine (Pool.watched_iff_along (mark cell learns) (cell.Ahead 0) _ _ history).symm.trans ?_
  exact hkept.watched_iff (fun _ _ _ _ _ hroom => hroom) ahead_iff_room

end FeedStage

end Room

namespace Js

variable {table id : String}

theorem movesByPut_of_store {action : Action}
    (h : ∀ input world, (perform action input world).2.store = world.store) :
    (rowCell table id).MovesByPut action :=
  Rows.movesByPut_of_still fun input world => congrArg Store.rows (h input world)

/-- Only the response of a change sent first moves its row, by a put. -/
theorem writeThroughServer_movesByPut (config : ClientConfig) (change : ChangeEvent)
    (policy : ErrorPolicy) (htable : change.table = table) (hid : change.id = id) :
    (writeThroughServer config change .serverFirst policy).Only
      (rowCell table id).MovesByPut := by
  subst htable hid
  have hsend := doSend_only config change
  apply (hsend.mono fun _ hsends => movesByPut_of_store hsends.store).bind
  intro reply
  cases reply with
  | error error => trivial
  | ok committedVersion =>
      refine ⟨movesByPut_of_store fun _ _ => rfl, fun now => ⟨?_, fun _ => trivial⟩⟩
      exact Rows.movesByPut_of_put rfl

theorem server_first_movesByPut (config : ClientConfig) (row : Option Json)
    (options : WriteOptions) (hmode : options.mode.getD config.writeMode = .serverFirst) :
    (Call.program config (.write table id row options)).Only (rowCell table id).MovesByPut := by
  refine Prog.Only.bind ?_ fun _ => trivial
  refine ⟨movesByPut_of_store fun _ _ => rfl, fun refusal => ?_⟩
  cases refusal with
  | some phase => trivial
  | none =>
      refine ⟨movesByPut_of_store fun _ _ => rfl, fun version =>
        ⟨movesByPut_of_store fun _ _ => rfl, fun key => ?_⟩⟩
      simp only [writeStamped, hmode, true_or, if_true]
      exact writeThroughServer_movesByPut config _ _ rfl rfl

/-- What the write learns from its own actions. A server that names no version committed
the stamp. -/
def learns : (action : Action) → action.Reply → Served → Served
  | .tick _ _, stamp, served => { served with stamp := some stamp }
  | .response, .ok version, served => { served with committed := version.or served.stamp }
  | _, _, served => served

section Stages

variable {sent : Option Json} {served : Served}

abbrev feedNext (table id : String) (sent : Option Json) : Stages session FeedStage :=
  FeedStage.Next (rowCell table id) learns sent

theorem feedNext_quiet {action : Action} {reply : action.Reply}
    (hputs : (rowCell table id).puts action = none) :
    feedNext table id sent (.serving served) action reply
      (.serving (learns action reply served)) := by
  refine ⟨fun put hput => ?_, rfl⟩
  rw [hputs] at hput
  cases hput

/-- The answer of the server is the version it committed. -/
theorem transmit_follows (transport : SendTransport) (change : ChangeEvent) (stamp : Hlc) :
    (transmit transport change).Follows (feedNext table id sent)
      (fun reply after => ∀ version, reply = .ok version →
        after = .serving { stamp := some stamp, committed := some (version.getD stamp) })
      (.serving { stamp := some stamp }) := by
  have hresponse : transmit.awaitResponse.Follows (feedNext table id sent)
      (fun reply after => ∀ version, reply = .ok version →
        after = .serving { stamp := some stamp, committed := some (version.getD stamp) })
      (.serving { stamp := some stamp }) := by
    intro response
    refine ⟨_, feedNext_quiet rfl, ?_⟩
    cases response with
    | failed message => exact nofun
    | ok version =>
        rintro _ ⟨⟩
        cases version <;> rfl
  cases transport with
  | custom => exact hresponse
  | backend getToken =>
      cases getToken with
      | false => exact fun _ => ⟨_, feedNext_quiet rfl, hresponse⟩
      | true =>
          intro tokenOk
          refine ⟨_, feedNext_quiet rfl, ?_⟩
          cases tokenOk with
          | false => exact nofun
          | true => exact fun _ => ⟨_, feedNext_quiet rfl, hresponse⟩

/-- The response of the write is put at the committed version, with what was sent. -/
theorem writeThroughServer_follows (config : ClientConfig) (change : ChangeEvent)
    (policy : ErrorPolicy) (hsent : change.row = sent) :
    (writeThroughServer config change .serverFirst policy).Follows
      (feedNext table id sent) (fun _ _ => True)
      (.serving { stamp := some change.version }) := by
  subst hsent
  have hsend : (doSend config change).Follows (feedNext table id change.row)
      (fun reply after => ∀ version, reply = .ok version → after =
        .serving { stamp := some change.version, committed := some (version.getD change.version) })
      (.serving { stamp := some change.version }) := by
    unfold doSend
    split
    · exact nofun
    · exact fun _ => ⟨_, feedNext_quiet rfl, transmit_follows _ _ _⟩
  refine hsend.bind fun reply after hafter => ?_
  cases reply with
  | error error => trivial
  | ok version =>
      obtain rfl := hafter version rfl
      refine fun now => ⟨_, feedNext_quiet rfl, fun _ => ⟨_, ⟨fun put hput => ?_, rfl⟩, trivial⟩⟩
      obtain ⟨-, rfl⟩ := Touch.put.inj (Rows.cell_puts.mp hput)
      exact ⟨rfl, rfl⟩

theorem server_first_follows (config : ClientConfig) (row : Option Json)
    (options : WriteOptions) (hmode : options.mode.getD config.writeMode = .serverFirst) :
    (Call.program config (.write table id row options)).Follows (feedNext table id row)
      (fun _ _ => True) (.serving {}) := by
  refine Prog.Follows.bind (E := fun _ _ => True) ?_ fun _ _ _ => trivial
  intro refusal
  refine ⟨_, feedNext_quiet rfl, ?_⟩
  cases refusal with
  | some phase => trivial
  | none =>
      refine fun version => ⟨_, feedNext_quiet rfl, fun key => ⟨_, feedNext_quiet rfl, ?_⟩⟩
      simp only [writeStamped, hmode, true_or, if_true]
      exact writeThroughServer_follows config _ _ rfl

variable {incoming : ChangeEvent}

theorem delivery_follows (config : ClientConfig) (incoming : ChangeEvent) :
    (Call.program config (.applyChange incoming)).Follows (feedNext table id sent)
      (fun _ _ => True) (.delivering incoming.version .fresh) := by
  have hleads := DeliveryStage.leads_applyChange config incoming
  have hfollows : (Js.applyChange config incoming).Follows (feedNext table id sent)
      (fun _ _ => True) (.delivering incoming.version .fresh) := by
    by_cases hkey : rowKey incoming.table incoming.id = rowKey table id
    · exact FeedStage.follows_of_leads DeliveryStage.reader
        (fun h => (hkey ▸ DeliveryStage.next_delivers h).reader) hleads
    · exact FeedStage.follows_of_leads (fun _ => .fresh)
        (fun h => (DeliveryStage.next_delivers h).elsewhere hkey) hleads
  exact hfollows.bind fun _ _ _ => trivial

end Stages

end Js

namespace Dart

variable {table id : String}

theorem movesByPut_of_storage {action : Action}
    (h : ∀ input world, (perform action input world).2.storage = world.storage) :
    (rowCell table id).MovesByPut action :=
  Rows.movesByPut_of_still fun input world => congrArg MemoryStorage.rows (h input world)

/-- Only the response of a change sent first moves its row, by a put. -/
theorem writeThroughServer_movesByPut (config : ClientConfig) (change : ChangeEvent)
    (policy : ErrorPolicy) (htable : change.table = table) (hid : change.id = id) :
    (writeThroughServer config change .serverFirst policy).Only
      (rowCell table id).MovesByPut := by
  subst htable hid
  simp only [writeThroughServer, doSend]
  split
  · refine ⟨movesByPut_of_storage fun _ _ => rfl, fun _ =>
      ⟨movesByPut_of_storage fun _ _ => rfl, fun response => ?_⟩⟩
    cases response with
    | failed message => trivial
    | committed version =>
        refine ⟨movesByPut_of_storage fun _ _ => rfl, fun now => ⟨?_, fun _ => trivial⟩⟩
        exact Rows.movesByPut_of_put rfl
  · trivial

theorem server_first_movesByPut (config : ClientConfig) (row : Option Json)
    (options : WriteOptions) (hmode : options.mode.getD config.writeMode = .serverFirst) :
    (Call.program config (.write table id row options)).Only (rowCell table id).MovesByPut := by
  refine Prog.Only.bind ?_ fun _ => trivial
  refine ⟨movesByPut_of_storage fun _ _ => rfl, fun refusal => ?_⟩
  cases refusal with
  | some phase => trivial
  | none =>
      refine ⟨movesByPut_of_storage fun _ _ => rfl, fun version =>
        ⟨movesByPut_of_storage fun _ _ => rfl, fun key => ?_⟩⟩
      simp only [writeStamped, hmode, true_or, if_true]
      exact writeThroughServer_movesByPut config _ _ rfl rfl

/-- What the write learns from its own actions. -/
def learns : (action : Action) → action.Reply → Served → Served
  | .tick _ _, stamp, served => { served with stamp := some stamp }
  | .response, .committed version, served => { served with committed := some version }
  | _, _, served => served

section Stages

variable {sent : Option Json} {served : Served} {incoming : ChangeEvent}

abbrev feedNext (table id : String) (sent : Option Json) : Stages device FeedStage :=
  FeedStage.Next (rowCell table id) learns sent

theorem feedNext_quiet {action : Action} {reply : action.Reply}
    (hputs : (rowCell table id).puts action = none) :
    feedNext table id sent (.serving served) action reply
      (.serving (learns action reply served)) := by
  refine ⟨fun put hput => ?_, rfl⟩
  rw [hputs] at hput
  cases hput

/-- The response of the write is put at the committed version, with what was sent. -/
theorem writeThroughServer_follows (config : ClientConfig) (change : ChangeEvent)
    (policy : ErrorPolicy) (hsent : change.row = sent) :
    (writeThroughServer config change .serverFirst policy).Follows
      (feedNext table id sent) (fun _ _ => True) (.serving served) := by
  subst hsent
  simp only [writeThroughServer, doSend]
  split
  · refine fun _ => ⟨_, feedNext_quiet rfl, fun response => ⟨_, feedNext_quiet rfl, ?_⟩⟩
    cases response with
    | failed message => trivial
    | committed version =>
        refine fun now => ⟨_, feedNext_quiet rfl, fun _ => ⟨_, ⟨fun put hput => ?_, rfl⟩, trivial⟩⟩
        obtain ⟨-, rfl⟩ := Touch.put.inj (Rows.cell_puts.mp hput)
        exact ⟨rfl, rfl⟩
  · trivial

theorem server_first_follows (config : ClientConfig) (row : Option Json)
    (options : WriteOptions) (hmode : options.mode.getD config.writeMode = .serverFirst) :
    (Call.program config (.write table id row options)).Follows (feedNext table id row)
      (fun _ _ => True) (.serving {}) := by
  refine Prog.Follows.bind (E := fun _ _ => True) ?_ fun _ _ _ => trivial
  intro refusal
  refine ⟨_, feedNext_quiet rfl, ?_⟩
  cases refusal with
  | some phase => trivial
  | none =>
      refine fun version => ⟨_, feedNext_quiet rfl, fun key => ⟨_, feedNext_quiet rfl, ?_⟩⟩
      simp only [writeStamped, hmode, true_or, if_true]
      exact writeThroughServer_follows config _ _ rfl

theorem delivery_follows (config : ClientConfig) (incoming : ChangeEvent) :
    (Call.program config (.applyChange incoming)).Follows (feedNext table id sent)
      (fun _ _ => True) (.delivering incoming.version .fresh) := by
  have hleads := DeliveryStage.leads_applyChange config incoming
  have hfollows : (Dart.applyChange config incoming).Follows (feedNext table id sent)
      (fun _ _ => True) (.delivering incoming.version .fresh) := by
    by_cases hkey : rowKey incoming.table incoming.id = rowKey table id
    · exact FeedStage.follows_of_leads DeliveryStage.reader
        (fun h => (hkey ▸ DeliveryStage.next_delivers h).reader) hleads
    · exact FeedStage.follows_of_leads (fun _ => .fresh)
        (fun h => (DeliveryStage.next_delivers h).elsewhere hkey) hleads
  exact hfollows.bind fun _ _ _ => trivial

end Stages

end Dart

/-- In both clients, in any interleaving of a `server_first` write, as thread 0,
with deliveries: the row never goes back and the response leaves the payload of
the version it answers, exactly when every put finds room: the response, by what
it answered and what was sent, and each delivery, by what the row became between
its read and its put. -/
theorem server_first_respects_feed_iff (table id : String) (row : Option Json) :
    (∀ (config : Js.ClientConfig) (options : Js.WriteOptions) (changes : List ChangeEvent)
        (world : Js.World) (schedule : List (Pool.Turn Js.session)),
      options.mode.getD config.writeMode = .serverFirst →
      let pool : Pool Js.session (Js.Outcome Js.CallResult) :=
        { world := world,
          threads := (.write table id row options :: changes.map .applyChange).map
            (Js.Call.program config) }
      (pool.Along ((Js.rowCell table id).Respects 0) schedule ↔
        pool.Watched (FeedStage.mark (Js.rowCell table id) Js.learns)
          (FindsRoom (Js.rowCell table id) row changes) schedule (fun _ => [], {}))) ∧
    (∀ (config : Dart.ClientConfig) (options : Dart.WriteOptions) (changes : List ChangeEvent)
        (world : Dart.World) (schedule : List (Pool.Turn Dart.device)),
      options.mode.getD config.writeMode = .serverFirst →
      let pool : Pool Dart.device (Dart.Outcome Dart.CallResult) :=
        { world := world,
          threads := (.write table id row options :: changes.map .applyChange).map
            (Dart.Call.program config) }
      (pool.Along ((Dart.rowCell table id).Respects 0) schedule ↔
        pool.Watched (FeedStage.mark (Dart.rowCell table id) Dart.learns)
          (FindsRoom (Dart.rowCell table id) row changes) schedule (fun _ => [], {}))) := by
  constructor
  · intro config options changes world schedule hmode pool
    apply FeedStage.respects_iff_room
    · exact Cell.each_first (Js.server_first_movesByPut config row options hmode) _ world
    · simp only [pool, List.map_cons, List.map_map]
      exact FeedStage.kept_start (Js.server_first_follows config row options hmode)
        (Js.delivery_follows config)
  · intro config options changes world schedule hmode pool
    apply FeedStage.respects_iff_room
    · exact Cell.each_first (Dart.server_first_movesByPut config row options hmode) _ world
    · simp only [pool, List.map_cons, List.map_map]
      exact FeedStage.kept_start (Dart.server_first_follows config row options hmode)
        (Dart.delivery_follows config)

/-- The version the server commits the write at, and its echo, with the payload as
the server stores it. -/
def servedAt : Hlc := { wallMs := 9, counter := 0, actor := "server" }

def normalizedEcho : ChangeEvent :=
  { table := "todos", op := .upsert, id := "a", version := servedAt,
    row := some (.str "milk"), writeKey := none }

/-- A later commit of another device. -/
def laterCommit : ChangeEvent :=
  { normalizedEcho with
    version := { wallMs := 10, counter := 0, actor := "server" }, row := some (.str "bread") }

/-- A write of a row the device does not have, beside one delivery. -/
def servedFirst (change : ChangeEvent) : Pool Js.session (Js.Outcome Js.CallResult) :=
  { world := { clock := Clock.fresh "device" }
    threads :=
      (.write "todos" "a" (some (.str " milk ")) { mode := some .serverFirst } ::
        [change].map .applyChange).map (Js.Call.program { send := some .custom }) }

def servedFirstDart (change : ChangeEvent) : Pool Dart.device (Dart.Outcome Dart.CallResult) :=
  { world := { clock := Clock.fresh "device" }
    threads :=
      (.write "todos" "a" (some (.str " milk ")) { mode := some .serverFirst } ::
        [change].map .applyChange).map (Dart.Call.program { hasSend := true }) }

/-- The turns of the write up to its request, and from its response on. -/
def requestTurns : List (Pool.Turn Js.session) := Js.turns 0 4 { now := 5 }

def responseTurns : List (Pool.Turn Js.session) :=
  Js.turns 0 3 { response := .ok (some servedAt) }

def requestTurnsDart : List (Pool.Turn Dart.device) := Dart.turns 0 4 { now := 5 }

def responseTurnsDart : List (Pool.Turn Dart.device) :=
  Dart.turns 0 3 { response := .committed servedAt }

/-- The response comes first: the echo refreshes the row it left. -/
theorem echo_refreshes_the_response :
    (servedFirst normalizedEcho).Along ((Js.rowCell "todos" "a").Respects 0)
        (requestTurns ++ responseTurns ++ Js.turns 1 5) ∧
      (servedFirstDart normalizedEcho).Along ((Dart.rowCell "todos" "a").Respects 0)
        (requestTurnsDart ++ responseTurnsDart ++ Dart.turns 1 5) := by
  obtain ⟨hjs, hdart⟩ := server_first_respects_feed_iff "todos" "a" (some (.str " milk "))
  constructor
  · apply (hjs { send := some .custom } { mode := some .serverFirst } [normalizedEcho]
      (servedFirst normalizedEcho).world (requestTurns ++ responseTurns ++ Js.turns 1 5) rfl).mpr
    open FeedStage in
    refine ⟨room_of_quiet rfl rfl, room_of_quiet rfl rfl, room_of_quiet rfl rfl,
      room_of_quiet rfl rfl, room_of_quiet rfl rfl, room_of_quiet rfl rfl, ?_,
      room_of_quiet rfl rfl, room_of_quiet rfl rfl, room_of_quiet rfl rfl,
      room_of_quiet rfl rfl, ?_, trivial⟩
    · rintro action next ⟨⟩ - committed - current ⟨⟩
    · rintro action next ⟨⟩ - change ⟨⟩ taken (htaken : some taken ∈ [])
      cases htaken
  · apply (hdart { hasSend := true } { mode := some .serverFirst } [normalizedEcho]
      (servedFirstDart normalizedEcho).world
      (requestTurnsDart ++ responseTurnsDart ++ Dart.turns 1 5) rfl).mpr
    open FeedStage in
    refine ⟨room_of_quiet rfl rfl, room_of_quiet rfl rfl, room_of_quiet rfl rfl,
      room_of_quiet rfl rfl, room_of_quiet rfl rfl, room_of_quiet rfl rfl, ?_,
      room_of_quiet rfl rfl, room_of_quiet rfl rfl, room_of_quiet rfl rfl,
      room_of_quiet rfl rfl, ?_, trivial⟩
    · rintro action next ⟨⟩ - committed - current ⟨⟩
    · rintro action next ⟨⟩ - change ⟨⟩ taken (htaken : some taken ∈ [])
      cases htaken

/-- The deliveries overtake the response: it lowers a row at a later commit, and
replaces the payload of its own echo. -/
theorem response_put_behind_the_feed :
    (¬ (servedFirst laterCommit).Along ((Js.rowCell "todos" "a").Respects 0)
        (requestTurns ++ Js.turns 1 5 ++ responseTurns) ∧
      ¬ (servedFirst normalizedEcho).Along ((Js.rowCell "todos" "a").Respects 0)
        (requestTurns ++ Js.turns 1 5 ++ responseTurns)) ∧
    (¬ (servedFirstDart laterCommit).Along ((Dart.rowCell "todos" "a").Respects 0)
        (requestTurnsDart ++ Dart.turns 1 5 ++ responseTurnsDart) ∧
      ¬ (servedFirstDart normalizedEcho).Along ((Dart.rowCell "todos" "a").Respects 0)
        (requestTurnsDart ++ Dart.turns 1 5 ++ responseTurnsDart)) := by
  refine ⟨⟨fun hruns => ?_, fun hruns => ?_⟩, fun hruns => ?_, fun hruns => ?_⟩
  · obtain ⟨-, -, -, hresponse, -⟩ := (Run.along_append _ _ _).mp hruns
    obtain ⟨later, ⟨⟩, hle⟩ := hresponse.rises _ rfl
    exact absurd hle (by decide)
  · obtain ⟨-, -, -, hresponse, -⟩ := (Run.along_append _ _ _).mp hruns
    have hpayload := Option.some.inj (hresponse.keeps rfl _ rfl _ rfl rfl)
    exact absurd (Json.str.inj hpayload) (by decide)
  · obtain ⟨-, -, -, hresponse, -⟩ := (Run.along_append _ _ _).mp hruns
    obtain ⟨later, ⟨⟩, hle⟩ := hresponse.rises _ rfl
    exact absurd hle (by decide)
  · obtain ⟨-, -, -, hresponse, -⟩ := (Run.along_append _ _ _).mp hruns
    have hpayload := Option.some.inj (hresponse.keeps rfl _ rfl _ rfl rfl)
    exact absurd (Json.str.inj hpayload) (by decide)

end ZedSync
