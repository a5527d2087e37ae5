import ZedSync.Lib.Feed
import ZedSync.Lib.LockedLog
import ZedSync.Lib.Run
import ZedSync.Postgres.Record

/-!
A reader of `zed_sync.changes` while transactions run. For every change of a row,
`record` takes the advisory lock and then inserts, which draws a value of
`zed_sync.sequence`. Of Postgres: the lock is exclusive, and given up after the commit is
visible or the transaction is rolled back; `nextval` gives larger and larger values, with
gaps of any size.
-/

namespace ZedSync.Postgres

/-- A row of `zed_sync.outbox`. -/
structure LogEntry extends OutboxEntry where
  sequence : Nat
  committedAt : Int
  deriving Repr

/-- The `MAXVALUE` of `zed_sync.sequence`. -/
def maxSequence : Nat := 9007199254740991

/-- A change of a row of an attached table, with the write key of the transaction. -/
structure TableChange where
  table : String
  writeKey : Option String
  change : RowChange
  deriving Repr

/-- A transaction is between statements, inside `record` with the lock, or over. One in
which a statement raised can only be rolled back. -/
inductive TxPhase where
  | running
  | recording (change : TableChange)
  | failed
  | committed
  | aborted
  deriving Repr

structure Plane where
  lock : LockedLog Nat LogEntry := {}
  lastValue : Nat := 0
  phase : Nat → TxPhase := fun _ => .running
  reader : Feed Nat LogEntry := { cursor := 0, seen := [] }

/-- The committed rows, in the order of the commits. -/
def Plane.visible (plane : Plane) : List LogEntry := plane.lock.published

def Plane.setPhase (plane : Plane) (tx : Nat) (phase : TxPhase) : Plane :=
  { plane with phase := Function.update plane.phase tx phase }

inductive PlaneEvent where
  | lock (tx : Nat) (change : TableChange)
  | insert (tx value : Nat) (committedAt : Int)
  | commit (tx : Nat)
  | rollback (tx : Nat)
  | release (tx : Nat)
  | read (limit : Nat)
  deriving Repr

namespace Plane

/-- `PERFORM pg_advisory_xact_lock(..)`; while another holds the lock, it waits. -/
def takeLock (plane : Plane) (tx : Nat) (change : TableChange) : Plane :=
  match plane.phase tx with
  | .running =>
      if plane.lock.Free tx then
        { plane with lock := plane.lock.acquire tx }.setPhase tx (.recording change)
      else plane
  | _ => plane

/-- The `INSERT` of `record`, where `nextval` gives the value. -/
def insert (render : Json → String) (plane : Plane) (tx value : Nat) (committedAt : Int) :
    Plane :=
  match plane.phase tx with
  | .recording change =>
      if value ≤ plane.lastValue then plane
      else if maxSequence < value then plane.setPhase tx .failed
      else
        match record render change.table change.writeKey change.change with
        | none => { plane with lastValue := value }.setPhase tx .failed
        | some entry =>
            { plane with
              lastValue := value
              lock := plane.lock.add tx
                { entry with sequence := value, committedAt := committedAt } }.setPhase
              tx .running
  | _ => plane

def rollback (plane : Plane) (tx : Nat) : Plane :=
  match plane.phase tx with
  | .committed | .aborted => plane
  | _ => { plane with lock := plane.lock.release tx }.setPhase tx .aborted

/-- The `COMMIT` of a failed transaction rolls it back. -/
def commit (plane : Plane) (tx : Nat) : Plane :=
  match plane.phase tx with
  | .running => { plane with lock := plane.lock.publish tx }.setPhase tx .committed
  | .failed => plane.rollback tx
  | _ => plane

def release (plane : Plane) (tx : Nat) : Plane :=
  match plane.phase tx with
  | .committed => { plane with lock := plane.lock.release tx }
  | _ => plane

/-- `SELECT * FROM zed_sync.changes WHERE sync_sequence > $1 ORDER BY sync_sequence LIMIT ..`. -/
def read (plane : Plane) (limit : Nat) : Plane :=
  { plane with reader := plane.reader.read LogEntry.sequence limit plane.visible }

end Plane

def planeStep (render : Json → String) (plane : Plane) : PlaneEvent → Plane
  | .lock tx change => plane.takeLock tx change
  | .insert tx value committedAt => plane.insert render tx value committedAt
  | .commit tx => plane.commit tx
  | .rollback tx => plane.rollback tx
  | .release tx => plane.release tx
  | .read limit => plane.read limit

namespace Plane

/-- What holds between any two steps: the log is in the order of the sequence, whose
values have all been drawn; whoever records holds the lock; the reader follows. -/
structure Inv (plane : Plane) : Prop where
  ordered : plane.lock.Ordered (·.sequence < ·.sequence)
  drawn : ∀ entry ∈ plane.lock.published ++ plane.lock.pending,
    0 < entry.sequence ∧ entry.sequence ≤ plane.lastValue
  recording : ∀ tx change, plane.phase tx = .recording change → plane.lock.holder = some tx
  reader : plane.reader.Follows LogEntry.sequence 0 plane.visible

theorem inv_empty : ({} : Plane).Inv where
  ordered := ⟨List.Pairwise.nil, fun _ => rfl⟩
  drawn := fun _ hentry => absurd hentry List.not_mem_nil
  recording := fun _ _ hphase => by cases hphase
  reader := ⟨List.Pairwise.nil, Or.inl rfl, [], rfl, by simp, by simp⟩

variable {plane : Plane} {tx : Nat}

@[simp] theorem setPhase_lock (phase : TxPhase) : (plane.setPhase tx phase).lock = plane.lock := rfl

@[simp] theorem setPhase_reader (phase : TxPhase) :
    (plane.setPhase tx phase).reader = plane.reader := rfl

/-- A transaction that ends or fails records nothing more. -/
theorem Inv.setPhase (h : plane.Inv) {phase : TxPhase}
    (hphase : ∀ change, phase = .recording change → plane.lock.holder = some tx) :
    (plane.setPhase tx phase).Inv where
  ordered := h.ordered
  drawn := h.drawn
  recording := by
    intro other change hother
    by_cases hsame : other = tx
    · subst hsame
      exact hphase change (by simpa [Plane.setPhase] using hother)
    · exact h.recording other change (by simpa [Plane.setPhase, hsame] using hother)
  reader := h.reader

theorem Inv.takeLock (h : plane.Inv) (change : TableChange) : (plane.takeLock tx change).Inv := by
  unfold Plane.takeLock
  split
  · split
    · rename_i hfree
      have hholder := LockedLog.holder_acquire hfree
      have hlocked : ({ plane with lock := plane.lock.acquire tx } : Plane).Inv :=
        { ordered := h.ordered.acquire
          drawn := by simpa using h.drawn
          recording := by
            intro other change hother
            have hheld := h.recording other change hother
            rcases hfree with hnone | hsome
            · rw [hnone] at hheld
              cases hheld
            · rw [hholder, ← hsome, hheld]
          reader := by simpa [visible] using h.reader }
      exact hlocked.setPhase fun _ _ => hholder
    · exact h
  · exact h

theorem Inv.insert (h : plane.Inv) (render : Json → String) (value : Nat) (committedAt : Int) :
    (plane.insert render tx value committedAt).Inv := by
  unfold Plane.insert
  split
  · rename_i change hphase
    have hholder := h.recording tx change hphase
    split
    · exact h
    · rename_i hnext
      split
      · exact h.setPhase fun _ hfailed => by cases hfailed
      · have hdrawn : ({ plane with lastValue := value } : Plane).Inv :=
          { ordered := h.ordered
            drawn := by
              intro entry hentry
              have hbound := h.drawn entry hentry
              exact ⟨hbound.1, by simp only; omega⟩
            recording := h.recording
            reader := h.reader }
        split
        · exact hdrawn.setPhase fun _ hfailed => by cases hfailed
        · rename_i entry _
          let row : LogEntry :=
            { toOutboxEntry := entry, sequence := value, committedAt := committedAt }
          have hlast : ∀ earlier ∈ plane.lock.published ++ plane.lock.pending,
              earlier.sequence < row.sequence := by
            intro earlier hearlier
            have hbound := h.drawn earlier hearlier
            change earlier.sequence < value
            omega
          have hadded : ({ plane with
              lastValue := value, lock := plane.lock.add tx row } : Plane).Inv :=
            { ordered := h.ordered.add hholder hlast
              drawn := by
                intro entry hentry
                rw [LockedLog.published_add, LockedLog.pending_add hholder,
                  ← List.append_assoc] at hentry
                rcases List.mem_append.mp hentry with hold | hnew
                · exact hdrawn.drawn entry hold
                · obtain rfl := List.mem_singleton.mp hnew
                  exact ⟨by change 0 < value; omega, le_refl value⟩
              recording := by
                intro other change hother
                rw [LockedLog.holder_add]
                exact h.recording other change hother
              reader := by simpa [visible] using h.reader }
          exact hadded.setPhase fun _ hrunning => by cases hrunning
  · exact h

/-- The lock is given up with what is pending, and nothing that is visible. -/
theorem Inv.giveUp (h : plane.Inv) {phase : TxPhase}
    (hphase : ∀ change, phase ≠ .recording change) :
    ({ plane with lock := plane.lock.release tx }.setPhase tx phase : Plane).Inv where
  ordered := h.ordered.release
  drawn := by
    intro entry hentry
    rcases List.mem_append.mp hentry with hpublished | hpending
    · rw [setPhase_lock, LockedLog.published_release] at hpublished
      exact h.drawn entry (List.mem_append_left _ hpublished)
    · exact h.drawn entry (List.mem_append_right _ (LockedLog.pending_release_subset hpending))
  recording := by
    intro other change hother
    by_cases hsame : other = tx
    · subst hsame
      exact absurd (by simpa [Plane.setPhase] using hother) (hphase change)
    · have hheld := h.recording other change (by simpa [Plane.setPhase, hsame] using hother)
      have hfree : plane.lock.holder ≠ some tx := by
        rw [hheld]
        simpa using hsame
      rw [setPhase_lock, LockedLog.release_other hfree]
      exact hheld
  reader := by simpa [visible] using h.reader

theorem Inv.rollback (h : plane.Inv) : (plane.rollback tx).Inv := by
  unfold Plane.rollback
  split
  · exact h
  · exact h
  · exact h.giveUp fun _ haborted => by cases haborted

theorem Inv.release (h : plane.Inv) : (plane.release tx).Inv := by
  unfold Plane.release
  split
  · rename_i hphase
    have hgiven :
        ({ plane with lock := plane.lock.release tx }.setPhase tx .committed : Plane).Inv :=
      h.giveUp fun _ hcommitted => by cases hcommitted
    have hsame : ({ plane with lock := plane.lock.release tx }.setPhase tx .committed : Plane) =
        { plane with lock := plane.lock.release tx } := by
      simp [Plane.setPhase, ← hphase]
    rwa [hsame] at hgiven
  · exact h

/-- A commit makes what is pending visible, after all that was. -/
theorem Inv.commit (h : plane.Inv) : (plane.commit tx).Inv := by
  unfold Plane.commit
  split
  · by_cases hholder : plane.lock.holder = some tx
    · have hpublished := LockedLog.published_publish hholder
      have hpending := LockedLog.pending_publish hholder
      have hcommitted : ({ plane with lock := plane.lock.publish tx } : Plane).Inv :=
        { ordered := h.ordered.publish hholder
          drawn := by simpa [hpublished, hpending] using h.drawn
          recording := by simpa using h.recording
          reader := by
            rw [visible, hpublished]
            exact h.reader.append h.ordered.sorted fun row hrow =>
              (h.drawn row (List.mem_append_right _ hrow)).1 }
      exact hcommitted.setPhase fun _ hphase => by cases hphase
    · rw [LockedLog.publish_other hholder]
      exact h.setPhase fun _ hphase => by cases hphase
  · exact h.rollback
  · exact h

theorem Inv.read (h : plane.Inv) (limit : Nat) : (plane.read limit).Inv :=
  { h with reader := h.reader.read limit }

theorem Inv.step (h : plane.Inv) (render : Json → String) (event : PlaneEvent) :
    (planeStep render plane event).Inv := by
  cases event with
  | lock tx change => exact h.takeLock change
  | insert tx value committedAt => exact h.insert render value committedAt
  | commit tx => exact h.commit
  | rollback tx => exact h.rollback
  | release tx => exact h.release
  | read limit => exact h.read limit

theorem Inv.run (h : plane.Inv) (render : Json → String) (events : List PlaneEvent) :
    (Run.final (planeStep render) plane events).Inv :=
  Run.preserved (J := Plane.Inv) (fun _ event h => h.step render event) events h

end Plane

/-- A read of at least one row. -/
def PlaneEvent.reads : PlaneEvent → Bool
  | .read limit => 0 < limit
  | _ => false

namespace Plane

variable {plane : Plane}

end Plane

end ZedSync.Postgres
