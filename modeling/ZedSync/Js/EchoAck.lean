import ZedSync.Js.Slots
import ZedSync.Lib.Debts

/-!
The acknowledgement of an optimistic write against the echoes of its commit. The
first of them to reach the row finds it dirty at the base of the write: a
settlement cleans it and takes the slot in one store call, a delivery adopts the
image and drops the slot some awaits later. The others find the row at the
committed version, and only an echo still changes its payload.
-/

namespace ZedSync.Js

open Async

/-- Where an acknowledgement is settled: at the end of `write`, or in the loop of
`flushQueue`. -/
inductive Settler where
  | write
  | flush
  deriving DecidableEq, Repr

def Settler.program (entry : QueueEntry) (committed : Hlc) : Settler → Prog session (Bool × Bool)
  | .write => settleAck entry.toQueuedWrite entry.seq (some committed)
  | .flush => act (.settleEntry entry (some committed))

/-- At most one settlement, and the deliveries of the echoes. What they answer is
not looked at. -/
def answers (config : ClientConfig) (entry : QueueEntry) (committed : Hlc)
    (settler : Option Settler) (echoes : List ChangeEvent) : List (Prog session Unit) :=
  (settler.toList.map fun settler => do let _ ← settler.program entry committed) ++
    echoes.map fun echo => do let _ ← applyChange config echo

namespace EchoAck

section World

variable (entry : QueueEntry) (committed : Hlc) (image : Option Json)

/-- The row is as the write left it: dirty, at the base version. -/
def Edited (world : World) : Prop :=
  ∃ stored, world.store.getRow entry.table entry.id = some stored ∧
    stored.rowMeta.dirty = true ∧ stored.rowMeta.version = entry.baseVersion

/-- The row is clean at the committed version, with any payload. -/
def AtCommit (world : World) : Prop :=
  ∃ stored, world.store.getRow entry.table entry.id = some stored ∧
    stored.rowMeta.dirty = false ∧ stored.rowMeta.version = committed

/-- The row is the server's. -/
def Landed (world : World) : Prop :=
  ∃ stored, world.store.getRow entry.table entry.id = some stored ∧ stored.row = image ∧
    stored.rowMeta.dirty = false ∧ stored.rowMeta.version = committed

/-- No write of the row is queued. -/
def Dropped (world : World) : Prop :=
  ∀ other ∈ world.store.queue, other.sameRow entry.table entry.id = false

/-- What holds from the commit on: changes are admitted, the row is as the write
left it or at the commit, and the write alone may be queued for it. -/
structure Answering (world : World) : Prop where
  admits : world.refusal .canReceiveChanges = none
  row : Edited entry world ∨ AtCommit entry committed world
  slots : world.store.Slots
  own : ∀ other ∈ world.store.queue,
    other.sameRow entry.table entry.id = true ∨ other.seq = entry.seq → other = entry

/-- The action settles the acknowledgement. -/
def Settles (action : Action) : Prop :=
  (∃ now, action = .settleAck (.ofEntry entry (some committed) now)) ∨
    action = .settleEntry entry (some committed)

/-- The action puts the committed image into the row. -/
def Lands (action : Action) : Prop :=
  ∃ stored, action.puts = some (entry.table, entry.id, stored) ∧ stored.row = image ∧
    stored.rowMeta.dirty = false ∧ stored.rowMeta.version = committed

def TakesPart (action : Action) : Prop :=
  action.Decides ∨ Lands entry committed image action ∨ Settles entry committed action

/-- The row as a step leaves it: untouched, put by an echo, or cleaned by the
settlement together with the slot. -/
inductive RowStep (action : Action) (before after : World) : Prop where
  | same (quiet : ¬ Lands entry committed image action)
      (row : after.store.getRow entry.table entry.id = before.store.getRow entry.table entry.id)
  | landed (lands : Lands entry committed image action)
      (row : Landed entry committed image after)
  | settled (quiet : ¬ Lands entry committed image action) (dropped : Dropped entry after)
      (current cleaned : StoredRow)
      (before : before.store.getRow entry.table entry.id = some current)
      (after : after.store.getRow entry.table entry.id = some cleaned)
      (row : cleaned.row = current.row) (clean : cleaned.rowMeta.dirty = false)
      (version : cleaned.rowMeta.version = committed)

/-- Everything one allowed action does. -/
structure Step (action : Action) (before after : World) : Prop where
  lifecycle : after.lifecycle = before.lifecycle
  slots : after.store.Slots
  queue : ∀ other ∈ after.store.queue, other ∈ before.store.queue
  row : RowStep entry committed image action before after

end World

variable {entry : QueueEntry} {committed : Hlc} {image : Option Json} {action : Action}
  {world : World}

theorem not_lands_of_none (h : action.puts = none) : ¬ Lands entry committed image action := by
  rintro ⟨stored, hputs, -⟩
  rw [h] at hputs
  cases hputs

theorem step_same {after : World} (h : Answering entry committed world)
    (hputs : action.puts = none) (hlifecycle : after.lifecycle = world.lifecycle)
    (hstore : after.store = world.store) : Step entry committed image action world after := by
  refine ⟨hlifecycle, hstore ▸ h.slots, ?_, .same (not_lands_of_none hputs) ?_⟩
  · rw [hstore]
    exact fun other hother => hother
  · rw [hstore]

theorem step_decides (h : Answering entry committed world) (hdecides : action.Decides)
    (input : Input) : Step entry committed image action world (perform action input world).2 := by
  cases action with
  | retire seq =>
      have hsublist : (world.store.retire seq).queue.Sublist world.store.queue :=
        List.filter_sublist
      exact ⟨rfl, h.slots.of_sublist hsublist rfl, fun other hother => hsublist.subset hother,
        .same (not_lands_of_none rfl) rfl⟩
  | requireCapability _ | observe _ | getRow _ _ | dateNow | pending =>
      exact step_same h rfl rfl rfl
  | _ => exact hdecides.elim

theorem step_lands (h : Answering entry committed world)
    (hlands : Lands entry committed image action) (input : Input) :
    Step entry committed image action world (perform action input world).2 := by
  obtain ⟨stored, hputs, himage, hclean, hversion⟩ := id hlands
  have hstore := (perform_puts hputs input world).1
  have hlifecycle : (perform action input world).2.lifecycle = world.lifecycle := by
    cases action <;> first | rfl | cases hputs
  refine ⟨hlifecycle, ?_, ?_, .landed hlands ⟨stored, ?_, himage, hclean, hversion⟩⟩
  · rw [hstore]
    exact h.slots.of_same rfl rfl
  · rw [hstore]
    exact fun other hother => hother
  · rw [hstore]
    exact Store.getRow_setRow_self _ _ _ _

/-- Without its slot an acknowledgement settles nothing. -/
theorem settle_absent {options : SettleOptions}
    (habsent : ∀ other ∈ world.store.queue, other.seq ≠ options.seq) :
    (world.settle options).2 = world := by
  have hnone : world.store.queue.findIdx? (·.seq = options.seq) = none := by
    simpa using habsent
  simp [World.settle, Store.settleAck, hnone]

theorem step_settle (h : Answering entry committed world) (hputs : action.puts = none)
    {options : SettleOptions} {input : Input} {now : Nat}
    (hseq : options.seq = entry.seq)
    (hoptions : entry ∈ world.store.queue → options = .ofEntry entry (some committed) now)
    (hafter : (perform action input world).2 = (world.settle options).2) :
    Step entry committed image action world (perform action input world).2 := by
  by_cases hentry : entry ∈ world.store.queue
  · obtain rfl := hoptions hentry
    have hstore : (perform action input world).2.store =
        (world.store.settleAck (.ofEntry entry (some committed) now)).2 := by rw [hafter]; rfl
    have hlifecycle : (perform action input world).2.lifecycle = world.lifecycle := by
      rw [hafter]; rfl
    rcases h.slots.settleAck hentry (some committed) now with
      hsame | ⟨current, hcurrent, hslots, hqueue, hrows⟩
    · exact step_same h hputs hlifecycle (hstore.trans hsame)
    · rw [← hstore] at hslots hqueue hrows
      refine ⟨hlifecycle, hslots, fun other hother => ((hqueue other).mp hother).1,
        .settled (not_lands_of_none hputs) ?_ current _ hcurrent
          ((congrFun hrows _).trans (if_pos rfl)) rfl rfl rfl⟩
      intro other hother
      obtain ⟨hbefore, hne⟩ := (hqueue other).mp hother
      by_contra hrow
      exact hne (h.own other hbefore (Or.inl (by simpa using hrow)))
  · have hsame : (perform action input world).2 = world := by
      rw [hafter]
      apply settle_absent
      intro other hother heq
      exact hentry (h.own other hother (Or.inr (heq.trans hseq)) ▸ hother)
    apply step_same h hputs <;> rw [hsame]

theorem step_settles (h : Answering entry committed world)
    (hsettles : Settles entry committed action) (input : Input) :
    Step entry committed image action world (perform action input world).2 := by
  rcases hsettles with ⟨now, rfl⟩ | rfl
  · exact step_settle h rfl rfl (fun _ => rfl) rfl
  · have hseq : (SettleOptions.ofEntry (world.store.deref entry) (some committed)
        input.now).seq = entry.seq := world.store.deref_seq entry
    have hoptions : entry ∈ world.store.queue →
        SettleOptions.ofEntry (world.store.deref entry) (some committed) input.now =
          .ofEntry entry (some committed) input.now := by
      intro hentry
      rw [h.slots.deref hentry]
    exact step_settle h rfl hseq hoptions rfl

theorem step (h : Answering entry committed world)
    (hanswers : TakesPart entry committed image action) (input : Input) :
    Step entry committed image action world (perform action input world).2 := by
  rcases hanswers with hdecides | hlands | hsettles
  · exact step_decides h hdecides input
  · exact step_lands h hlands input
  · exact step_settles h hsettles input

theorem Answering.step {after : World} (h : Answering entry committed world)
    (hstep : Step entry committed image action world after) : Answering entry committed after := by
  refine ⟨?_, ?_, hstep.slots, fun other hother => h.own other (hstep.queue other hother)⟩
  · rw [World.refusal, hstep.lifecycle]
    exact h.admits
  · cases hstep.row with
    | same _ row =>
        rw [Edited, AtCommit, row]
        exact h.row
    | landed _ row =>
        obtain ⟨stored, hstored, -, hclean, hversion⟩ := row
        exact Or.inr ⟨stored, hstored, hclean, hversion⟩
    | settled _ _ current cleaned _ hafter _ hclean hversion =>
        exact Or.inr ⟨cleaned, hafter, hclean, hversion⟩

theorem Landed.step {after : World} (h : Landed entry committed image world)
    (hstep : Step entry committed image action world after) :
    Landed entry committed image after := by
  cases hstep.row with
  | same _ row =>
      rw [Landed, row]
      exact h
  | landed _ row => exact row
  | settled _ _ current cleaned hbefore hafter hrow hclean hversion =>
      obtain ⟨stored, hstored, himage, -, -⟩ := h
      obtain rfl := Option.some.inj (hstored.symm.trans hbefore)
      exact ⟨cleaned, hafter, hrow.trans himage, hclean, hversion⟩

theorem Edited.back {after : World} (h : Edited entry after)
    (hstep : Step entry committed image action world after) : Edited entry world := by
  obtain ⟨stored, hstored, hdirty, hversion⟩ := h
  cases hstep.row with
  | same _ row => exact ⟨stored, row.symm.trans hstored, hdirty, hversion⟩
  | landed _ row =>
      obtain ⟨other, hother, -, hclean, -⟩ := row
      obtain rfl := Option.some.inj (hstored.symm.trans hother)
      rw [hclean] at hdirty
      cases hdirty
  | settled _ _ current cleaned _ hafter _ hclean _ =>
      obtain rfl := Option.some.inj (hstored.symm.trans hafter)
      rw [hclean] at hdirty
      cases hdirty

theorem Dropped.step {after : World} (h : Dropped entry world)
    (hstep : Step entry committed image action world after) : Dropped entry after :=
  fun other hother => h other (hstep.queue other hother)

/-- The row's only write leaves the queue. -/
theorem dropped_of_retire (h : Answering entry committed world) (input : Input) :
    Dropped entry (perform (.retire entry.seq) input world).2 := by
  intro other hother
  obtain ⟨hbefore, hseq⟩ : other ∈ world.store.queue ∧ other.seq ≠ entry.seq := by
    simpa [perform, Store.retire] using hother
  by_contra hrow
  exact hseq (congrArg QueueEntry.seq (h.own other hbefore (Or.inl (by simpa using hrow))))

/-- The answers to a delivery: it is admitted, and finds the row in one of its two
states. -/
def Found (entry : QueueEntry) (committed : Hlc) : (action : Action) → action.Reply → Prop
  | .requireCapability .canReceiveChanges, refusal => refusal = none
  | .getRow table id, reply => table = entry.table → id = entry.id → ∃ stored, reply = some stored ∧
      (stored.rowMeta.dirty = true ∧ stored.rowMeta.version = entry.baseVersion ∨
        stored.rowMeta.dirty = false ∧ stored.rowMeta.version = committed)
  | _, _ => True

/-- While the row is as the write left it, a delivery reads it so. -/
def FoundEdited (entry : QueueEntry) : (action : Action) → action.Reply → Prop
  | .getRow table id, reply => table = entry.table → id = entry.id → ∃ stored, reply = some stored ∧
      stored.rowMeta.dirty = true ∧ stored.rowMeta.version = entry.baseVersion
  | _, _ => True

/-- While the write is queued, a listing of the queue has it. -/
def Listed (entry : QueueEntry) : (action : Action) → action.Reply → Prop
  | .pending, entries => entry ∈ entries
  | _, _ => True

/-- Every delivery owes the row its image. -/
def imageDebt (entry : QueueEntry) (committed : Hlc) (image : Option Json) : Debt session where
  allowed := TakesPart entry committed image
  Inv := Answering entry committed
  Clear _ := False
  Paid := Landed entry committed image
  incurs _ := False
  pays := Lands entry committed image
  clearReplies _ _ := True
  dueReplies := Found entry committed
  inv_step hanswers h input := h.step (step h hanswers input)
  clear_back _ _ _ hclear := hclear.elim
  clear_reply _ _ _ := trivial
  clear_step _ _ hclear := hclear.elim
  due_reply := by
    intro action world h _ input
    cases action with
    | requireCapability capability =>
        cases capability with
        | canWrite => trivial
        | canReceiveChanges => exact h.admits
    | getRow table id =>
        rintro rfl rfl
        rcases h.row with ⟨stored, hstored, hdirty, hversion⟩ | ⟨stored, hstored, hclean, hversion⟩
        · exact ⟨stored, hstored, Or.inl ⟨hdirty, hversion⟩⟩
        · exact ⟨stored, hstored, Or.inr ⟨hclean, hversion⟩⟩
    | _ => trivial
  pays_step := by
    intro action world hanswers hlands h input
    cases (step h hanswers input).row with
    | same quiet _ => exact absurd hlands quiet
    | landed _ row => exact row
    | settled quiet _ _ _ _ _ _ _ _ => exact absurd hlands quiet
  paid_step hanswers h hpaid input := hpaid.step (step h hanswers input)

/-- Who puts the image over the row as the write left it owes the queue a
retirement. -/
def slotDebt (entry : QueueEntry) (committed : Hlc) (image : Option Json) : Debt session where
  allowed := TakesPart entry committed image
  Inv := Answering entry committed
  Clear := Edited entry
  Paid := Dropped entry
  incurs := Lands entry committed image
  pays action := action = .retire entry.seq
  clearReplies := FoundEdited entry
  dueReplies := Listed entry
  inv_step hanswers h input := h.step (step h hanswers input)
  clear_back hanswers h input hclear := hclear.back (step h hanswers input)
  clear_reply := by
    intro action world _ hclear input
    cases action with
    | getRow table id =>
        rintro rfl rfl
        exact hclear
    | _ => trivial
  clear_step := by
    intro action world hanswers h hclear hquiet input
    cases (step h hanswers input).row with
    | same _ row =>
        obtain ⟨stored, hstored, hedited⟩ := hclear
        exact Or.inl ⟨stored, row.trans hstored, hedited⟩
    | landed lands _ => exact absurd lands hquiet
    | settled _ dropped _ _ _ _ _ _ _ => exact Or.inr dropped
  due_reply := by
    intro action world h hunpaid input
    cases action with
    | pending =>
        simp only [Dropped, not_forall] at hunpaid
        obtain ⟨other, hother, hrow⟩ := hunpaid
        have heq := h.own other hother (Or.inl (by simpa using hrow))
        exact heq ▸ hother
    | _ => trivial
  pays_step := by
    rintro action world - rfl h input
    exact dropped_of_retire h input
  paid_step hanswers h hpaid input := hpaid.step (step h hanswers input)

/-- An echo of the commit of a queued write. -/
structure Echoes (entry : QueueEntry) (committed : Hlc) (image : Option Json)
    (echo : ChangeEvent) : Prop where
  table : echo.table = entry.table
  id : echo.id = entry.id
  version : echo.version = committed
  image : echo.live = image

section Delivery

variable {echo : ChangeEvent} (config : ClientConfig)

/-- On the row as the write left it both resolutions adopt the echo. -/
theorem applyDecision_edited {stored : StoredRow} (hdirty : stored.rowMeta.dirty = true)
    (hnewer : stored.rowMeta.version < echo.version) :
    applyDecision config echo (some stored) = adoptOverQueued echo := by
  have hdecision : reconcile (some stored.localRow) echo = .conflict := by
    rw [reconcile_newer hnewer]
    simp [StoredRow.localRow, hdirty]
  have hwins : resolveConflict config.conflictResolution stored.localRow echo = true :=
    resolveConflict_newer _ hnewer
  simp only [applyDecision, Option.map_some, hdecision, hwins, if_true]

/-- At the commit the echo refreshes the row. -/
theorem applyDecision_committed {stored : StoredRow} (hclean : stored.rowMeta.dirty = false)
    (hversion : echo.version = stored.rowMeta.version) :
    applyDecision config echo (some stored) = adoptAs echo .refreshed := by
  have hdecision : reconcile (some stored.localRow) echo = .ignore .alreadyApplied :=
    reconcile_same hversion
  simp only [applyDecision, Option.map_some, hdecision, hclean, Bool.not_false, if_true]

/-- The put of an adoption, and what comes after it. -/
theorem adopt_bind (echo : ChangeEvent) (rest : Prog session α) :
    ∃ put : Nat → Action, (∀ now, (put now).Adopts echo) ∧
      (adopt echo >>= fun _ => rest) =
        .call .dateNow fun now => .call (put now) fun _ => rest := by
  let landed (now : Nat) : RowMeta :=
    { version := echo.version, dirty := false, syncedAtMs := some now }
  by_cases hdelete : echo.op = .delete
  · refine ⟨fun now => .removeRow echo.table echo.id (landed now), fun now => ?_, ?_⟩
    · exact ⟨_, rfl, by simp [ChangeEvent.live, hdelete], rfl, rfl⟩
    · simp only [adopt, act, hdelete, if_true, Prog.call_bind, Prog.ret_bind, landed]
  · refine ⟨fun now => .putRow echo.table echo.id echo.row (landed now), fun now => ?_, ?_⟩
    · exact ⟨_, rfl, by simp [ChangeEvent.live, hdelete], rfl, rfl⟩
    · simp only [adopt, act, hdelete, if_false, Prog.call_bind, Prog.ret_bind, landed]

theorem Echoes.lands (h : Echoes entry committed image echo) (hadopts : action.Adopts echo) :
    Lands entry committed image action := by
  obtain ⟨stored, hputs, hrow, hversion, hclean⟩ := hadopts
  rw [h.table, h.id] at hputs
  exact ⟨stored, hputs, hrow.trans h.image, hclean, hversion.trans h.version⟩

theorem retireEach_owes {entries : List QueueEntry} (hentry : entry ∈ entries) :
    (slotDebt entry committed image).Owed (retireEach entry.table entry.id entries) := by
  induction entries with
  | nil => cases hentry
  | cons first rest ih =>
      simp only [retireEach, act]
      rcases List.mem_cons.mp hentry with rfl | hrest
      · have hsame : entry.sameRow entry.table entry.id = true := by simp [QueueEntry.sameRow]
        rw [if_pos hsame]
        exact Or.inl rfl
      · split
        · exact Or.inr fun _ _ => ih hrest
        · exact ih hrest

/-- A delivery that adopts over the edited row owes the slot from its put on. -/
theorem adoptOverQueued_careful (h : Echoes entry committed image echo) :
    (slotDebt entry committed image).Careful (adoptOverQueued echo) := by
  have hdrops : (slotDebt entry committed image).Owed
      (dropQueuedFor echo.table echo.id >>= fun _ =>
        (.ret (.ok .conflictResolved) : Prog session (Outcome ChangeOutcome))) := by
    apply Prog.Owes.bind
    rw [h.table, h.id]
    exact Or.inr fun entries hlisted => retireEach_owes hlisted
  have hquiet : (slotDebt entry committed image).Careful
      (dropQueuedFor echo.table echo.id >>= fun _ =>
        (.ret (.ok .conflictResolved) : Prog session (Outcome ChangeOutcome))) := by
    apply Debt.careful_of_only
    refine Prog.Only.bind ?_ fun _ => trivial
    refine ⟨not_lands_of_none rfl, fun entries => retireEach_only _ _ _ fun action hdecides => ?_⟩
    apply not_lands_of_none
    cases action <;> first | rfl | exact hdecides.elim
  obtain ⟨put, hadopts, hbind⟩ := adopt_bind echo
    (dropQueuedFor echo.table echo.id >>= fun _ =>
      (.ret (.ok .conflictResolved) : Prog session (Outcome ChangeOutcome)))
  have hprogram : adoptOverQueued echo = _ := hbind
  rw [hprogram]
  intro now _
  refine ⟨fun hlands => absurd hlands (not_lands_of_none rfl), ?_⟩
  exact fun _ _ => ⟨fun _ => hdrops, hquiet⟩

theorem applyChange_careful (h : Echoes entry committed image echo)
    (hnewer : entry.baseVersion < committed) :
    (slotDebt entry committed image).Careful (applyChange config echo) := by
  have hquiet : ∀ {action : Action}, action.puts = none →
      ¬ Lands entry committed image action := not_lands_of_none
  intro refusal _
  refine ⟨fun hlands => absurd hlands (hquiet rfl), ?_⟩
  cases refusal with
  | some phase => trivial
  | none =>
      dsimp only
      split
      · trivial
      · intro _ _
        refine ⟨fun hlands => absurd hlands (hquiet rfl), ?_⟩
        intro existing hfound
        refine ⟨fun hlands => absurd hlands (hquiet rfl), ?_⟩
        obtain ⟨stored, rfl, hdirty, hversion⟩ := hfound h.table h.id
        have hbelow : stored.rowMeta.version < echo.version := by
          rw [hversion, h.version]
          exact hnewer
        show (slotDebt entry committed image).Careful (applyDecision config echo (some stored))
        rw [applyDecision_edited config hdirty hbelow]
        exact adoptOverQueued_careful h

theorem applyChange_owes (h : Echoes entry committed image echo)
    (hnewer : entry.baseVersion < committed) (hallows : config.allows entry.table = true) :
    (imageDebt entry committed image).Owed (applyChange config echo) := by
  have hadopt : ∀ rest : Prog session (Outcome ChangeOutcome),
      (imageDebt entry committed image).Owed (adopt echo >>= fun _ => rest) := by
    intro rest
    obtain ⟨put, hadopts, hbind⟩ := adopt_bind echo rest
    rw [hbind]
    exact Or.inr fun now _ => Or.inl (h.lands (hadopts now))
  refine Or.inr fun refusal hadmits => ?_
  obtain rfl : refusal = none := hadmits
  dsimp only
  have hlet : config.allows echo.table = true := by rw [h.table, hallows]
  simp only [hlet, Bool.not_true, Bool.false_eq_true, if_false]
  refine Or.inr fun _ _ => Or.inr fun existing hfound => ?_
  obtain ⟨stored, rfl, hstored⟩ := hfound h.table h.id
  show (imageDebt entry committed image).Owed (applyDecision config echo (some stored))
  rcases hstored with ⟨hdirty, hversion⟩ | ⟨hclean, hversion⟩
  · have hbelow : stored.rowMeta.version < echo.version := by
      rw [hversion, h.version]
      exact hnewer
    rw [applyDecision_edited config hdirty hbelow]
    exact hadopt _
  · rw [applyDecision_committed config hclean (h.version.trans hversion.symm)]
    exact hadopt _

end Delivery

theorem settler_only (settler : Settler) : (settler.program entry committed).Only
    fun action : Action => TakesPart entry committed image action ∧ action.puts = none := by
  cases settler with
  | write =>
      exact ⟨⟨Or.inl trivial, rfl⟩, fun now =>
        ⟨⟨Or.inr (Or.inr (Or.inl ⟨now, rfl⟩)), rfl⟩, fun _ => trivial⟩⟩
  | flush => exact ⟨⟨Or.inr (Or.inr (Or.inr rfl)), rfl⟩, fun _ => trivial⟩

/-- The threads, one by one: the settlement, or a delivery. -/
theorem answers_cases {config : ClientConfig} {settler : Option Settler}
    {echoes : List ChangeEvent} {program : Prog session Unit}
    (h : program ∈ answers config entry committed settler echoes) :
    (∃ settler : Settler, program = settler.program entry committed >>= fun _ => .ret ()) ∨
      ∃ echo ∈ echoes, program = applyChange config echo >>= fun _ => .ret () := by
  rcases List.mem_append.mp h with hsettler | hecho
  · obtain ⟨settler, -, rfl⟩ := List.mem_map.mp hsettler
    exact Or.inl ⟨settler, rfl⟩
  · obtain ⟨echo, hmem, rfl⟩ := List.mem_map.mp hecho
    exact Or.inr ⟨echo, hmem, rfl⟩

theorem answers_only {config : ClientConfig} {settler : Option Settler}
    {echoes : List ChangeEvent} (hechoes : ∀ echo ∈ echoes, Echoes entry committed image echo) :
    ∀ program ∈ answers config entry committed settler echoes,
      program.Only (TakesPart entry committed image) := by
  intro program hprogram
  rcases answers_cases hprogram with ⟨settler, rfl⟩ | ⟨echo, hecho, rfl⟩
  · exact ((settler_only settler).mono fun _ => And.left).bind fun _ => trivial
  · have hdelivers : (applyChange config echo).Only (TakesPart entry committed image) :=
      applyChange_only config echo (fun _ hdecides => Or.inl hdecides)
        fun _ hadopts => Or.inr (Or.inl ((hechoes echo hecho).lands hadopts))
    exact hdelivers.bind fun _ => trivial

theorem answers_careful {config : ClientConfig} {settler : Option Settler}
    {echoes : List ChangeEvent} (hnewer : entry.baseVersion < committed)
    (hechoes : ∀ echo ∈ echoes, Echoes entry committed image echo) :
    ∀ program ∈ answers config entry committed settler echoes,
      (slotDebt entry committed image).Careful program := by
  intro program hprogram
  rcases answers_cases hprogram with ⟨settler, rfl⟩ | ⟨echo, hecho, rfl⟩
  · refine Debt.Careful.bind ?_ fun _ => trivial
    apply Debt.careful_of_only
    have honly : (settler.program entry committed).Only fun action : Action =>
        TakesPart entry committed image action ∧ action.puts = none := settler_only settler
    exact honly.mono fun _ hquiet => not_lands_of_none hquiet.2
  · exact (applyChange_careful config (hechoes echo hecho) hnewer).bind fun _ => trivial

end EchoAck

open EchoAck

/-- A dirty row whose own write is queued, on a client that lets changes for it in. -/
structure AwaitsAck (config : ClientConfig) (entry : QueueEntry) (world : World) : Prop where
  admits : world.Admits config entry.table
  slots : world.store.Slots
  queued : entry ∈ world.store.queue
  edited : Edited entry world

theorem AwaitsAck.answering {config : ClientConfig} {entry : QueueEntry} {committed : Hlc}
    {world : World} (h : AwaitsAck config entry world) : Answering entry committed world := by
  refine ⟨h.admits.2, Or.inl h.edited, h.slots, fun other hother hown => ?_⟩
  rcases hown with hrow | hseq
  · exact h.slots.single other hother entry h.queued hrow
  · exact h.slots.eq_of_seq hother h.queued hseq

/-- The acknowledgement of a queued write and the echoes of its commit commute: at
most one settlement and any number of deliveries, at least one, in any interleaving
leave the row at the committed image and version, clean, with no write queued. -/
theorem ack_and_echoes_commute (config : ClientConfig) (entry : QueueEntry) (committed : Hlc)
    (image : Option Json) (world : World) (settler : Option Settler)
    (echoes : List ChangeEvent) (schedule : List (Pool.Turn session))
    (hawaits : AwaitsAck config entry world) (hnewer : entry.baseVersion < committed)
    (hechoes : ∀ echo ∈ echoes, Echoes entry committed image echo) (hsome : echoes ≠ []) :
    let pool : Pool session Unit :=
      { world := world, threads := answers config entry committed settler echoes }
    let final := pool.run schedule
    final.Done →
      (∃ stored, final.world.store.getRow entry.table entry.id = some stored ∧
        stored.row = image ∧ stored.rowMeta.dirty = false ∧
        stored.rowMeta.version = committed) ∧
      ∀ other ∈ final.world.store.queue, other.sameRow entry.table entry.id = false := by
  intro pool final hdone
  have honly : ∀ program ∈ answers config entry committed settler echoes,
      program.Only (TakesPart entry committed image) := answers_only hechoes
  have himage : (imageDebt entry committed image).Held pool := by
    refine ⟨honly, hawaits.answering, fun hclear => hclear.elim, Or.inr (Or.inr ?_)⟩
    obtain ⟨echo, hecho⟩ := List.exists_mem_of_ne_nil echoes hsome
    have howes := applyChange_owes config (hechoes echo hecho) hnewer hawaits.admits.1
    refine ⟨_, List.mem_append_right _ (List.mem_map_of_mem hecho), ?_⟩
    exact Prog.Owes.bind howes _
  have hslot : (slotDebt entry committed image).Held pool :=
    ⟨honly, hawaits.answering, fun _ => answers_careful hnewer hechoes, Or.inl hawaits.edited⟩
  have hlanded : Landed entry committed image final.world :=
    ((himage.run schedule).done hdone).resolve_left id
  refine ⟨hlanded, ?_⟩
  rcases (hslot.run schedule).done hdone with hedited | hdropped
  · obtain ⟨stored, hstored, -, hclean, -⟩ := hlanded
    obtain ⟨other, hother, hdirty, -⟩ := hedited
    obtain rfl := Option.some.inj (hstored.symm.trans hother)
    rw [hclean] at hdirty
    cases hdirty
  · exact hdropped

/-- A queued edit, its row as the edit left it, and the echo of its commit. -/
def sentEdit : QueueEntry :=
  { table := "todos", id := "a", op := .upsert, payload := some (.str " milk "),
    baseVersion := { wallMs := 5, counter := 0, actor := "device" }, key := "device-5-0", seq := 1 }

def sentWorld : World :=
  { store :=
      { Store.putRow {} "todos" "a" sentEdit.payload
          { version := sentEdit.baseVersion, dirty := true, syncedAtMs := none } with
        queue := [sentEdit], seq := 1 }
    clock := Clock.fresh "device" }

def commitEcho : ChangeEvent :=
  { table := "todos", op := .upsert, id := "a",
    version := { wallMs := 9, counter := 0, actor := "server" }, row := some (.str "milk"),
    writeKey := some sentEdit.key }

theorem sentWorld_awaits : AwaitsAck {} sentEdit sentWorld := by
  refine ⟨⟨rfl, rfl⟩, ⟨by decide, ?_, ?_⟩, List.mem_cons_self, ⟨_, rfl, rfl, rfl⟩⟩
  · intro entry hentry
    obtain rfl := List.mem_singleton.mp hentry
    exact Nat.le_refl 1
  · intro entry hentry other hother _
    exact (List.mem_singleton.mp hentry).trans (List.mem_singleton.mp hother).symm

/-- Two echoes, and the acknowledgement settled between the read and the put of the
first. -/
def settledBetween : List (Pool.Turn session) :=
  turns 1 3 ++ turns 0 2 ++ turns 1 3 ++ turns 2 5

theorem settled_between_commutes :
    let final := Pool.run
      { world := sentWorld,
        threads := answers {} sentEdit commitEcho.version (some .write) [commitEcho, commitEcho] }
      settledBetween
    (∃ stored, final.world.store.getRow "todos" "a" = some stored ∧
        stored.row = some (.str "milk") ∧ stored.rowMeta.dirty = false ∧
        stored.rowMeta.version = commitEcho.version) ∧
      ∀ other ∈ final.world.store.queue, other.sameRow "todos" "a" = false := by
  have hecho : EchoAck.Echoes sentEdit commitEcho.version (some (.str "milk")) commitEcho :=
    ⟨rfl, rfl, rfl, rfl⟩
  have hechoes : ∀ echo ∈ [commitEcho, commitEcho],
      EchoAck.Echoes sentEdit commitEcho.version (some (.str "milk")) echo := by
    intro echo hmem
    have heq : echo = commitEcho := by simpa using hmem
    rw [heq]
    exact hecho
  exact ack_and_echoes_commute {} sentEdit commitEcho.version (some (.str "milk")) sentWorld
    (some .write) [commitEcho, commitEcho] settledBetween sentWorld_awaits (by decide) hechoes
    (by simp) (by decide)

end ZedSync.Js
