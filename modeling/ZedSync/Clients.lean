import ZedSync.Dart.Echo
import ZedSync.Dart.LocalEdits
import ZedSync.Dart.WriteRace
import ZedSync.Js.Echo
import ZedSync.Js.LocalEdits
import ZedSync.Js.WriteRace

/-!
What the browser client and the Dart client have in common: the edits that
outrank their rows, the newer writes a change spares, and the newer writes an
echo spares.
-/

namespace ZedSync

open Async

/-- What an action that puts an edit does: the edit is strictly above the stored version,
and no change adopted before conflicts with it later. -/
def EditOutranks {I : Interface} (reconcile : Option LocalRow → ChangeEvent → Reconcile)
    (row : Register I Hlc) (action : I.Action) (_ : I.Input) (world : I.World) : Prop :=
  ∀ edit, row.puts action = some (edit, true) →
    (∀ version, row.stored world = some version → version < edit) ∧
      ∀ change : ChangeEvent, change.version ∈ row.adopted world →
        reconcile (some { version := edit, dirty := true }) change ≠ .conflict

theorem editOutranks_iff {I : Interface} {row : Register I Hlc} {action : I.Action}
    {input : I.Input} {world : I.World} :
    EditOutranks Js.reconcile row action input world ↔ row.Outranks action input world := by
  refine forall_congr' fun edit => imp_congr_right fun _ => and_congr_right fun _ => ?_
  constructor
  · intro hspares version hversion
    have hconflict := hspares
      { table := "", op := .delete, id := "", version := version, row := none, writeKey := none }
      hversion
    exact not_lt.mp fun hlt => hconflict ((Js.reconcile_conflict_iff _ _).mpr ⟨rfl, hlt⟩)
  · intro hle change hchange hconflict
    exact (hle change.version hchange).not_gt ((Js.reconcile_conflict_iff _ _).mp hconflict).2

/-- In both clients and for every row, in any interleaving of calls with new clients taking
over the store at any time: the edits outrank the row exactly when they outrank those of its
versions that came past the clock (by an ack, a `server_first` put, a change beyond the
drift bound, or before a restart), or since the stamp of the edit. -/
theorem local_edits_outrank_their_rows (table id : String) :
    (∀ (config : Js.ClientConfig) (calls : List Js.Call) (world : Js.World)
        (schedule : List (Pool.Turn Js.session)),
      let pool : Pool Js.session (Js.Outcome Js.CallResult) :=
        { world := world, threads := calls.map (Js.Call.program config) }
      (pool.Heeds (EditOutranks Js.reconcile (Js.rowRegister table id)) schedule ↔
        pool.Watched ((Js.rowRegister table id).mark (Js.delivering calls))
          (Js.rowRegister table id).OutranksForeign schedule
          ((Js.rowRegister table id).start world))) ∧
    (∀ (config : Dart.ClientConfig) (calls : List Dart.Call) (world : Dart.World)
        (schedule : List (Pool.Turn Dart.device)),
      let pool : Pool Dart.device (Dart.Outcome Dart.CallResult) :=
        { world := world, threads := calls.map (Dart.Call.program config) }
      (pool.Heeds (EditOutranks Dart.reconcile (Dart.rowRegister table id)) schedule ↔
        pool.Watched ((Dart.rowRegister table id).mark (Dart.delivering calls))
          (Dart.rowRegister table id).OutranksForeign schedule
          ((Dart.rowRegister table id).start world))) := by
  constructor
  · intro config calls world schedule pool
    refine Iff.trans ?_ (Js.stamps_outrank_iff config calls world schedule table id)
    exact Run.along_congr (fun _ _ => forall₃_congr fun _ _ _ => editOutranks_iff) pool schedule
  · intro config calls world schedule pool
    refine Iff.trans ?_ (Dart.stamps_outrank_iff config calls world schedule table id)
    rw [Dart.reconcile_eq]
    exact Run.along_congr (fun _ _ => forall₃_congr fun _ _ _ => editOutranks_iff) pool schedule

/-- A first write whose ack settles, and a second write to the same row. -/
def twoEdits : Pool Js.session (Js.Outcome Js.CallResult) :=
  { world := { clock := Clock.fresh "device" }
    threads :=
      [.write "todos" "a" (some (.str "first")) {},
        .write "todos" "a" (some (.str "second")) {}].map
        (Js.Call.program { send := some .custom }) }

/-- The first write is acknowledged at a version of the server, ahead of the device. -/
def ackedAhead : List (Pool.Turn Js.session) :=
  let committed : Hlc := { wallMs := 9, counter := 0, actor := "server" }
  Js.turns 0 10 { now := 5, response := .ok (some committed) } ++ Js.turns 1 4 { now := 6 }

/-- The ack left the clock behind, so the second edit is put below its row. -/
theorem edit_below_an_acked_row :
    ¬ twoEdits.Heeds (EditOutranks Js.reconcile (Js.rowRegister "todos" "a"))
      (ackedAhead ++ Js.turns 1 1) := by
  intro hruns
  obtain ⟨-, hedit, -⟩ := (Run.along_append _ _ _).mp hruns
  have hbelow := (hedit _ _ rfl _ rfl).1 _ rfl
  exact absurd hbelow (by decide)

/-- In both clients, in any interleaving of any calls, the delivery of the echo of an own
write leaves a newer write to the row in place, as long as the newer write does not stand
where the echo outruns the row it reads, and does not come between that read and what the
delivery puts or retires. -/
theorem echoes_spare_newer_writes (thread : Nat) (older change : ChangeEvent) :
    (∀ (config : Js.ClientConfig) (calls : List Js.Call) (world : Js.World)
        (schedule : List (Pool.Turn Js.session)),
      calls[thread]? = some (.applyChange change) →
      let pool : Pool Js.session (Js.Outcome Js.CallResult) :=
        { world := world, threads := calls.map (Js.Call.program config) }
      let shelf := Js.queueShelf change.table change.id
      pool.Watched shelf.mark (shelf.Undisturbed change (older.version < ·) thread) schedule
        Since.start →
      pool.Along (fun pool turn => turn.1 = thread →
        Pool.Takes (Js.EchoSpares older change) pool turn) schedule) ∧
    (∀ (config : Dart.ClientConfig) (calls : List Dart.Call) (world : Dart.World)
        (schedule : List (Pool.Turn Dart.device)),
      calls[thread]? = some (.applyChange change) →
      let pool : Pool Dart.device (Dart.Outcome Dart.CallResult) :=
        { world := world, threads := calls.map (Dart.Call.program config) }
      let shelf := Dart.queueShelf change.table change.id
      pool.Watched shelf.mark (shelf.Undisturbed change (older.version < ·) thread) schedule
        Since.start →
      pool.Along (fun pool turn => turn.1 = thread →
        Pool.Takes (Dart.EchoSpares older change) pool turn) schedule) :=
  ⟨fun config calls world schedule => Js.echo_spares config calls world schedule thread older
      change,
    fun config calls world schedule => Dart.echo_spares config calls world schedule thread older
      change⟩

/-- The first edit as it is sent, and the second as it is queued. -/
def firstEdit : ChangeEvent :=
  { table := "todos", op := .upsert, id := "a",
    version := { wallMs := 5, counter := 0, actor := "device" }, row := some (.str "first"),
    writeKey := some (Js.nextKey "device" 5 0) }

def secondEdit : Js.QueuedWrite :=
  { table := "todos", id := "a", op := .upsert, payload := some (.str "second"),
    baseVersion := { wallMs := 6, counter := 0, actor := "device" },
    key := Js.nextKey "device" 6 1 }

/-- The first edit as the server committed it, at a version of its own. -/
def firstEcho (wallMs : Nat) : ChangeEvent :=
  { firstEdit with version := { wallMs := wallMs, counter := 0, actor := "server" } }

/-- The two edits beside the delivery of the first one's echo. -/
def editsAndEcho (echo : ChangeEvent) : Pool Js.session (Js.Outcome Js.CallResult) :=
  { world := { clock := Clock.fresh "device" }
    threads :=
      [.write "todos" "a" (some (.str "first")) {}, .write "todos" "a" (some (.str "second")) {},
        .applyChange echo].map (Js.Call.program { send := some .custom }) }

/-- Both edits wait for their responses, and the delivery has read the row. -/
def echoReads : List (Pool.Turn Js.session) :=
  Js.turns 0 7 { now := 5 } ++ Js.turns 1 7 { now := 6 } ++ Js.turns 2 4

def dartEditsAndEcho (echo : ChangeEvent) : Pool Dart.device (Dart.Outcome Dart.CallResult) :=
  { world := { clock := Clock.fresh "device" }
    threads :=
      [.write "todos" "a" (some (.str "first")) {}, .write "todos" "a" (some (.str "second")) {},
        .applyChange echo].map (Dart.Call.program { hasSend := true }) }

def dartEchoReads : List (Pool.Turn Dart.device) :=
  Dart.turns 0 7 { now := 5 } ++ Dart.turns 1 7 { now := 6 } ++ Dart.turns 2 4

/-- An echo below the second edit finds the row past it. -/
theorem echo_below_a_newer_edit_spares :
    (editsAndEcho (firstEcho 5)).Along (fun pool turn => turn.1 = 2 →
      Pool.Takes (Js.EchoSpares firstEdit (firstEcho 5)) pool turn) (echoReads ++ Js.turns 2 1) ∧
    (dartEditsAndEcho (firstEcho 5)).Along (fun pool turn => turn.1 = 2 →
      Pool.Takes (Dart.EchoSpares firstEdit (firstEcho 5)) pool turn)
        (dartEchoReads ++ Dart.turns 2 1) :=
  ⟨(echoes_spare_newer_writes 2 firstEdit (firstEcho 5)).1 _ _ (editsAndEcho (firstEcho 5)).world
      (echoReads ++ Js.turns 2 1) rfl (by decide),
    (echoes_spare_newer_writes 2 firstEdit (firstEcho 5)).2 _ _
      (dartEditsAndEcho (firstEcho 5)).world (dartEchoReads ++ Dart.turns 2 1) rfl (by decide)⟩

/-- The echo of the first edit, at a version above it, takes the row of the second one. -/
theorem echo_drops_a_newer_edit :
    ¬ (editsAndEcho (firstEcho 9)).Along (fun pool turn => turn.1 = 2 →
      Pool.Takes (Js.EchoSpares firstEdit (firstEcho 9)) pool turn)
        (echoReads ++ Js.turns 2 1) := by
  intro hruns
  obtain ⟨-, hput, -⟩ := (Run.along_append _ _ _).mp hruns
  have hecho : Js.EchoBefore firstEdit (firstEcho 9) secondEdit
      ((editsAndEcho (firstEcho 9)).run echoReads).world :=
    ⟨List.mem_cons_self, ⟨rfl, rfl, rfl⟩, rfl, rfl, by decide⟩
  obtain ⟨stored, hstored, -, -, hdirty⟩ :=
    (hput rfl _ _ rfl secondEdit hecho).1 ⟨_, rfl, rfl, rfl, rfl⟩
  obtain rfl := Option.some.inj hstored
  cases hdirty

/-- In both clients, one incoming change against one optimistic or local write to
its row: in any interleaving in which the write does not cross the change, a write newer
than the change ends in place, unless the write itself was acknowledged. -/
theorem newer_write_survives_change (incoming : ChangeEvent) (row : Option Json) :
    (∀ (config : Js.ClientConfig) (options : Js.WriteOptions) (world : Js.World)
        (schedule : List (Pool.Turn Js.session)),
      options.mode.getD config.writeMode ≠ .serverFirst →
      options.mode.getD config.writeMode ≠ .serverOnly →
      let pool : Pool Js.session (Js.Outcome Js.CallResult) :=
        { world := world,
          threads := [Js.Call.program config (.applyChange incoming),
            Js.Call.program config (.write incoming.table incoming.id row options)] }
      let shelf := Js.runShelf incoming.table incoming.id world.queued.length
      let final := pool.run schedule
      pool.Watched shelf.mark (Js.Uncrossed incoming world.queued.length) schedule Since.start →
        final.Done →
        ∀ write, final.world.queued = world.queued ++ [write] →
          incoming.version < write.baseVersion →
          (∃ version, final.threads[1]? =
            some (.ret (.ok (.wrote { status := .acked, version := version })))) ∨
          (Js.InPlace write final.world ∧ write.table = incoming.table ∧
            write.id = incoming.id ∧ (options.merge = false → write.payload = row))) ∧
    (∀ (config : Dart.ClientConfig) (options : Dart.WriteOptions) (world : Dart.World)
        (schedule : List (Pool.Turn Dart.device)),
      options.mode.getD config.writeMode ≠ .serverFirst →
      options.mode.getD config.writeMode ≠ .serverOnly →
      let pool : Pool Dart.device (Dart.Outcome Dart.CallResult) :=
        { world := world,
          threads := [Dart.Call.program config (.applyChange incoming),
            Dart.Call.program config (.write incoming.table incoming.id row options)] }
      let shelf := Dart.runShelf incoming.table incoming.id world.queued.length
      let final := pool.run schedule
      pool.Watched shelf.mark (Dart.Uncrossed incoming world.queued.length) schedule
        Since.start →
        final.Done →
        ∀ write, final.world.queued = world.queued ++ [write] →
          incoming.version < write.baseVersion →
          (∃ version, final.threads[1]? =
            some (.ret (.ok (.wrote { status := .acked, version := version })))) ∨
          (Dart.InPlace write final.world ∧ write.table = incoming.table ∧
            write.id = incoming.id ∧ write.payload = row)) :=
  ⟨fun config => Js.newer_write_kept config incoming row,
    fun config => Dart.newer_write_kept config incoming row⟩

/-- A change of a peer beside a local edit to the same row. -/
def peerChange : ChangeEvent :=
  { table := "todos", op := .upsert, id := "a",
    version := { wallMs := 2, counter := 0, actor := "peer" }, row := some (.str "peer"),
    writeKey := none }

def localEdit : Js.QueuedWrite :=
  { table := "todos", id := "a", op := .upsert, payload := some (.str "edit"),
    baseVersion := { wallMs := 5, counter := 0, actor := "device" },
    key := Js.nextKey "device" 5 0 }

def changeBesideEdit : Pool Js.session (Js.Outcome Js.CallResult) :=
  { world := { clock := Clock.fresh "device" }
    threads :=
      [.applyChange peerChange,
        .write "todos" "a" (some (.str "edit")) { mode := some .localOnly }].map
        (Js.Call.program {}) }

def localDartEdit : Dart.QueuedWrite :=
  { table := "todos", id := "a", op := .upsert, payload := some (.str "edit"),
    baseVersion := { wallMs := 5, counter := 0, actor := "device" },
    key := Dart.nextKey "device" 5 0 }

def changeBesideDartEdit : Pool Dart.device (Dart.Outcome Dart.CallResult) :=
  { world := { clock := Clock.fresh "device" }
    threads :=
      [.applyChange peerChange,
        .write "todos" "a" (some (.str "edit")) { mode := some .localOnly }].map
        (Dart.Call.program {}) }

/-- The edit is put and queued before the change reads the row, which it then leaves alone. -/
theorem edit_before_read_in_place :
    let schedule := Js.turns 0 2 ++ Js.turns 1 6 { now := 5 } ++ Js.turns 0 1
    let scheduleDart := Dart.turns 0 2 ++ Dart.turns 1 6 { now := 5 } ++ Dart.turns 0 1
    ((∃ version, (changeBesideEdit.run schedule).threads[1]? =
        some (.ret (.ok (.wrote { status := .acked, version := version })))) ∨
      (Js.InPlace localEdit (changeBesideEdit.run schedule).world ∧
        localEdit.table = "todos" ∧ localEdit.id = "a" ∧
        (false = false → localEdit.payload = some (.str "edit")))) ∧
    ((∃ version, (changeBesideDartEdit.run scheduleDart).threads[1]? =
        some (.ret (.ok (.wrote { status := .acked, version := version })))) ∨
      (Dart.InPlace localDartEdit (changeBesideDartEdit.run scheduleDart).world ∧
        localDartEdit.table = "todos" ∧ localDartEdit.id = "a" ∧
        localDartEdit.payload = some (.str "edit"))) :=
  ⟨(newer_write_survives_change peerChange (some (.str "edit"))).1 {}
      { mode := some .localOnly } changeBesideEdit.world
      (Js.turns 0 2 ++ Js.turns 1 6 { now := 5 } ++ Js.turns 0 1) (by decide) (by decide)
      (by decide) (by decide) localEdit rfl (by decide),
    (newer_write_survives_change peerChange (some (.str "edit"))).2 {}
      { mode := some .localOnly } changeBesideDartEdit.world
      (Dart.turns 0 2 ++ Dart.turns 1 6 { now := 5 } ++ Dart.turns 0 1) (by decide) (by decide)
      (by decide) (by decide) localDartEdit rfl (by decide)⟩

/-- The change reads the absent row, the edit is put and queued, and the change
puts its older version over it. -/
theorem change_put_over_a_newer_edit :
    let final := changeBesideEdit.run
      (Js.turns 0 3 ++ Js.turns 1 6 { now := 5 } ++ Js.turns 0 2)
    final.Done ∧ final.world.queued = [localEdit] ∧
      peerChange.version < localEdit.baseVersion ∧
      final.threads[1]? = some (.ret (.ok (.wrote
        { status := .localWrite, version := localEdit.baseVersion }))) ∧
      ¬ Js.InPlace localEdit final.world := by
  refine ⟨by decide, rfl, by decide, rfl, ?_⟩
  rintro ⟨⟨stored, hstored, -, -, hdirty⟩, -⟩
  obtain rfl := Option.some.inj hstored
  cases hdirty

end ZedSync
