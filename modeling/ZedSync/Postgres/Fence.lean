import ZedSync.Lib.LockedLog
import ZedSync.Lib.Run
import ZedSync.Postgres.Record

/-!
`zed_sync.assert_fence` on the fence row of one lease key, called by transactions that run
side by side. The upsert locks the row, also where its `WHERE` then refuses it and the
function raises, and a transaction keeps the lock to its end. Under READ COMMITTED the
`WHERE` reads the row as it was last committed. A transaction is for `W` writes, which
commit with it.
-/

namespace ZedSync.Postgres

/-- The row of `zed_sync.fence` for a lease key. -/
structure FenceRow where
  fencingToken : Int
  holder : Option String
  updatedAt : Int
  deriving DecidableEq, Repr

/-- What `assert_fence` raises: its own errors, and a `CHECK` of the table. -/
inductive FenceError where
  | leaseKeyRequired
  | invalidToken (token : Option Int)
  | check (column : String)
  | stale (token seen : Int)
  deriving DecidableEq, Repr

/-- The row the `INSERT` proposes. -/
def proposedRow (leaseKey : Option String) (token : Option Int) (holder : Option String)
    (now : Int) : Except FenceError FenceRow :=
  match leaseKey, token with
  | none, _ => .error .leaseKeyRequired
  | some leaseKey, token =>
      if leaseKey.length = 0 then .error .leaseKeyRequired
      else
        match token with
        | none => .error (.invalidToken none)
        | some token =>
            if token ≤ 0 then .error (.invalidToken (some token))
            else if !lengthBetween leaseKey then .error (.check "lease_key")
            else if !holder.all lengthBetween then .error (.check "holder")
            else .ok { fencingToken := token, holder := holder, updatedAt := now }

/-- `ON CONFLICT DO UPDATE .. WHERE f.fencing_token <= EXCLUDED.fencing_token`. -/
def advanceFence (fence : Option FenceRow) (proposed : FenceRow) : Except FenceError FenceRow :=
  match fence with
  | none => .ok proposed
  | some seen =>
      if seen.fencingToken ≤ proposed.fencingToken then .ok proposed
      else .error (.stale proposed.fencingToken seen.fencingToken)

/-- `assert_fence` on the committed row. -/
def assertFence (fence : Option FenceRow) (leaseKey : Option String) (token : Option Int)
    (holder : Option String) (now : Int) : Except FenceError FenceRow :=
  (proposedRow leaseKey token holder now).bind (advanceFence fence)

/-- A transaction has yet to assert its fence, has asserted it, has failed, or is over. -/
inductive FencePhase where
  | running
  | fenced (row : FenceRow)
  | failed (error : FenceError)
  | committed
  | aborted
  deriving DecidableEq, Repr

/-- The row a transaction leaves. -/
structure FenceUpdate where
  tx : Nat
  row : FenceRow
  deriving DecidableEq, Repr

/-- The committed fence row, its lock, and the transactions with their writes. -/
structure FenceTable (W : Type) where
  fence : Option FenceRow := none
  lock : LockedLog Nat FenceUpdate := {}
  phase : Nat → FencePhase := fun _ => .running
  writes : Nat → List W := fun _ => []

inductive FenceEvent (W : Type) where
  | write (tx : Nat) (write : W)
  | assertFence (tx : Nat) (token : Int) (holder : Option String) (now : Int)
  | commit (tx : Nat)
  | abort (tx : Nat)
  deriving Repr

namespace FenceTable

variable {W : Type}

def setPhase (table : FenceTable W) (tx : Nat) (phase : FencePhase) : FenceTable W :=
  { table with phase := Function.update table.phase tx phase }

/-- A statement of a transaction that has failed raises, and of one that is over there
is none. -/
def write (table : FenceTable W) (tx : Nat) (write : W) : FenceTable W :=
  match table.phase tx with
  | .running | .fenced _ =>
      { table with writes := Function.update table.writes tx (table.writes tx ++ [write]) }
  | _ => table

/-- The one call of `assert_fence` of a transaction. An argument or a `CHECK` raises before
the row is locked; while another transaction has it locked, the call waits. -/
def assertFence (leaseKey : String) (table : FenceTable W) (tx : Nat) (token : Int)
    (holder : Option String) (now : Int) : FenceTable W :=
  match table.phase tx with
  | .running =>
      match proposedRow (some leaseKey) (some token) holder now with
      | .error error => table.setPhase tx (.failed error)
      | .ok _ =>
          if table.lock.Free tx then
            match Postgres.assertFence table.fence (some leaseKey) (some token) holder now with
            | .error error =>
                { table with lock := table.lock.acquire tx }.setPhase tx (.failed error)
            | .ok row =>
                { table with
                  lock := (table.lock.acquire tx).add tx { tx := tx, row := row } }.setPhase
                  tx (.fenced row)
          else table
  | _ => table

def abort (table : FenceTable W) (tx : Nat) : FenceTable W :=
  match table.phase tx with
  | .committed | .aborted => table
  | _ => { table with lock := table.lock.release tx }.setPhase tx .aborted

/-- A transaction commits after it has asserted its fence; the `COMMIT` of one that has
failed aborts it. -/
def commit (table : FenceTable W) (tx : Nat) : FenceTable W :=
  match table.phase tx with
  | .fenced row =>
      { table with
        fence := some row
        lock := (table.lock.publish tx).release tx }.setPhase tx .committed
  | .failed _ => table.abort tx
  | _ => table

end FenceTable

def fenceStep {W : Type} (leaseKey : String) (table : FenceTable W) :
    FenceEvent W → FenceTable W
  | .write tx write => table.write tx write
  | .assertFence tx token holder now => table.assertFence leaseKey tx token holder now
  | .commit tx => table.commit tx
  | .abort tx => table.abort tx

namespace FenceTable

variable {W : Type}

/-- The call gets the row: its arguments and `CHECK`s pass, and nobody has the row locked. -/
def Obtains (leaseKey : String) (table : FenceTable W) (tx : Nat) (token : Int)
    (holder : Option String) (now : Int) : Prop :=
  table.phase tx = .running ∧ table.lock.Free tx ∧
    ∃ row, proposedRow (some leaseKey) (some token) holder now = .ok row

/-- The row is the one of the last commit, and the tokens of the commits never decrease.
Only a transaction that has called `assert_fence` and is not over holds the lock; where the
call was accepted, its row is the one pending. -/
structure Inv (table : FenceTable W) : Prop where
  ordered : table.lock.Ordered fun first second : FenceUpdate =>
    first.row.fencingToken ≤ second.row.fencingToken
  latest : table.fence = table.lock.published.getLast?.map FenceUpdate.row
  holds : ∀ tx, table.lock.holder = some tx →
    (∃ row, table.phase tx = .fenced row) ∨ ∃ error, table.phase tx = .failed error
  fenced : ∀ tx row, table.phase tx = .fenced row →
    table.lock.holder = some tx ∧ table.lock.pending = [{ tx := tx, row := row }]
  committed : ∀ tx, table.phase tx = .committed ↔
    ∃ update ∈ table.lock.published, update.tx = tx

@[simp] theorem setPhase_lock (table : FenceTable W) (tx : Nat) (phase : FencePhase) :
    (table.setPhase tx phase).lock = table.lock := rfl

@[simp] theorem setPhase_fence (table : FenceTable W) (tx : Nat) (phase : FencePhase) :
    (table.setPhase tx phase).fence = table.fence := rfl

theorem inv_empty : ({} : FenceTable W).Inv where
  ordered := ⟨List.Pairwise.nil, fun _ => rfl⟩
  latest := rfl
  holds := fun _ hholder => by cases hholder
  fenced := fun _ _ hphase => by cases hphase
  committed := by
    intro tx
    constructor
    · rintro hphase
      cases hphase
    · rintro ⟨update, hupdate, -⟩
      cases hupdate

variable {table : FenceTable W} {tx : Nat}

/-- The committed row has the largest of the committed tokens. -/
theorem Inv.latest_largest (h : table.Inv) (token : Int) :
    (∀ seen ∈ table.fence, seen.fencingToken ≤ token) ↔
      ∀ update ∈ table.lock.published, update.row.fencingToken ≤ token := by
  rw [h.latest]
  cases hlast : table.lock.published.getLast? with
  | none => simp [List.getLast?_eq_none_iff.mp hlast]
  | some last =>
      obtain ⟨before, hbefore⟩ := List.getLast?_eq_some_iff.mp hlast
      have hsorted := h.ordered.published
      rw [hbefore] at hsorted ⊢
      have hlargest := (List.pairwise_append.mp hsorted).2.2
      constructor
      · intro hseen update hupdate
        have hlastToken : last.row.fencingToken ≤ token := hseen last.row rfl
        rcases List.mem_append.mp hupdate with hearlier | hself
        · exact (hlargest update hearlier last (List.mem_singleton_self last)).trans hlastToken
        · obtain rfl := List.mem_singleton.mp hself
          exact hlastToken
      · intro hall seen hseen
        obtain rfl := Option.some.inj hseen
        exact hall last (List.mem_append_right _ (List.mem_singleton_self last))

end FenceTable

/-- On arguments that pass, the call succeeds exactly on the tokens from the committed one
on, and then proposes its row. -/
theorem assertFence_cases {leaseKey holder : Option String} {token : Int} {now : Int}
    {proposed : FenceRow} (hproposed : proposedRow leaseKey (some token) holder now = .ok proposed)
    (fence : Option FenceRow) :
    proposed.fencingToken = token ∧
    ((∀ seen ∈ fence, seen.fencingToken ≤ token) ∧
        assertFence fence leaseKey (some token) holder now = .ok proposed ∨
      ∃ seen, fence = some seen ∧ token < seen.fencingToken ∧
        assertFence fence leaseKey (some token) holder now =
          .error (.stale token seen.fencingToken)) := by
  have htoken : proposed.fencingToken = token := by
    cases leaseKey with
    | none => cases hproposed
    | some leaseKey =>
        simp only [proposedRow] at hproposed
        split_ifs at hproposed
        obtain rfl := Except.ok.inj hproposed
        rfl
  refine ⟨htoken, ?_⟩
  rw [assertFence, hproposed]
  cases fence with
  | none => exact Or.inl ⟨fun _ hseen => (by cases hseen), rfl⟩
  | some seen =>
      by_cases hle : seen.fencingToken ≤ token
      · left
        constructor
        · intro other hother
          obtain rfl := Option.some.inj hother
          exact hle
        · simp [Except.bind, advanceFence, htoken, hle]
      · exact Or.inr ⟨seen, rfl, not_le.mp hle, by
          simp [Except.bind, advanceFence, htoken, hle]⟩

namespace FenceTable

variable {W : Type} {table : FenceTable W} {tx : Nat}

theorem Inv.write (h : table.Inv) (write : W) : (table.write tx write).Inv := by
  unfold FenceTable.write
  split
  · exact { h with }
  · exact { h with }
  · exact h

/-- Nobody who has yet to call has the lock. -/
theorem Inv.unlocked (h : table.Inv) (hphase : table.phase tx = .running)
    (hfree : table.lock.Free tx) : table.lock.holder = none := by
  rcases hfree with hnone | hsome
  · exact hnone
  · rcases h.holds tx hsome with ⟨row, hfenced⟩ | ⟨error, hfailed⟩
    · rw [hphase] at hfenced
      cases hfenced
    · rw [hphase] at hfailed
      cases hfailed

/-- A transaction that is not over moves on, and takes or gives up the lock, while the
others stay where they are. -/
theorem Inv.move (h : table.Inv) {lock : LockedLog Nat FenceUpdate} {phase : FencePhase}
    (hordered : lock.Ordered fun first second : FenceUpdate =>
      first.row.fencingToken ≤ second.row.fencingToken)
    (hpublished : lock.published = table.lock.published)
    (hover : table.phase tx ≠ .committed ∧ phase ≠ .committed)
    (hself : lock.holder = some tx → (∃ row, phase = .fenced row) ∨ ∃ error, phase = .failed error)
    (hfenced : ∀ row, phase = .fenced row →
      lock.holder = some tx ∧ lock.pending = [{ tx := tx, row := row }])
    (hothers : ∀ other, other ≠ tx →
      (lock.holder = some other → table.lock.holder = some other) ∧
      (table.lock.holder = some other → lock = table.lock)) :
    ({ table with lock := lock }.setPhase tx phase : FenceTable W).Inv where
  ordered := hordered
  latest := by
    have hlatest := h.latest
    rw [← hpublished] at hlatest
    exact hlatest
  holds := by
    intro other hother
    by_cases hsame : other = tx
    · subst hsame
      simpa [setPhase] using hself hother
    · simpa [setPhase, hsame] using h.holds other ((hothers other hsame).1 hother)
  fenced := by
    intro other row hother
    by_cases hsame : other = tx
    · subst hsame
      exact hfenced row (by simpa [setPhase] using hother)
    · have hbefore := h.fenced other row (by simpa [setPhase, hsame] using hother)
      have hlock := (hothers other hsame).2 hbefore.1
      subst hlock
      exact hbefore
  committed := by
    intro other
    have hbefore := h.committed other
    rw [← hpublished] at hbefore
    by_cases hsame : other = tx
    · subst hsame
      simpa [setPhase, hover] using hbefore
    · simpa [setPhase, hsame] using hbefore

theorem Inv.assertFence (h : table.Inv) (leaseKey : String) (token : Int)
    (holder : Option String) (now : Int) :
    (table.assertFence leaseKey tx token holder now).Inv := by
  unfold FenceTable.assertFence
  split
  · rename_i hphase
    have hrunning : table.phase tx ≠ .committed := by
      rw [hphase]
      exact fun hcommitted => by cases hcommitted
    cases hproposed : proposedRow (some leaseKey) (some token) holder now with
    | error error =>
        exact h.move h.ordered rfl ⟨hrunning, by simp⟩ (fun _ => Or.inr ⟨error, rfl⟩)
          (fun _ hfenced => by cases hfenced) fun _ _ => ⟨id, fun _ => rfl⟩
    | ok proposed =>
        dsimp only
        split
        · rename_i hfree
          have hnone := h.unlocked hphase hfree
          have hacquired := LockedLog.holder_acquire hfree
          have hpending : table.lock.pending = [] := h.ordered.idle hnone
          have hothers : ∀ lock : LockedLog Nat FenceUpdate, lock.holder = some tx →
              ∀ other, other ≠ tx → (lock.holder = some other → table.lock.holder = some other) ∧
                (table.lock.holder = some other → lock = table.lock) := by
            intro lock hlock other hother
            constructor
            · intro hheld
              rw [hlock] at hheld
              exact absurd (Option.some.inj hheld).symm hother
            · intro hheld
              rw [hnone] at hheld
              cases hheld
          obtain ⟨htoken, ⟨hle, hok⟩ | ⟨seen, hseen, hlt, herror⟩⟩ :=
            assertFence_cases hproposed table.fence
          · rw [hok]
            have hlargest : ∀ earlier ∈ (table.lock.acquire tx).published ++
                (table.lock.acquire tx).pending,
                earlier.row.fencingToken ≤ proposed.fencingToken := by
              intro earlier hearlier
              rw [LockedLog.published_acquire, LockedLog.pending_acquire, hpending,
                List.append_nil] at hearlier
              rw [htoken]
              exact (h.latest_largest token).mp hle earlier hearlier
            refine h.move (h.ordered.acquire.add hacquired hlargest) (by simp)
              ⟨hrunning, by simp⟩ (fun _ => Or.inl ⟨proposed, rfl⟩) ?_
              (hothers _ (by rw [LockedLog.holder_add, hacquired]))
            intro row hrow
            obtain rfl := FencePhase.fenced.inj hrow
            refine ⟨by rw [LockedLog.holder_add, hacquired], ?_⟩
            rw [LockedLog.pending_add hacquired, LockedLog.pending_acquire, hpending,
              List.nil_append]
          · rw [herror]
            exact h.move h.ordered.acquire (by simp) ⟨hrunning, by simp⟩
              (fun _ => Or.inr ⟨_, rfl⟩) (fun _ hfenced => by cases hfenced) (hothers _ hacquired)
        · exact h
  · exact h

theorem Inv.abort (h : table.Inv) : (table.abort tx).Inv := by
  unfold FenceTable.abort
  split
  · exact h
  · exact h
  · rename_i hcommitted _
    refine h.move h.ordered.release (by simp) ⟨hcommitted, by simp⟩ ?_
      (fun _ hfenced => by cases hfenced) ?_
    · intro hholder
      exact absurd rfl (LockedLog.holder_release_cases tx hholder).1
    · intro other hother
      constructor
      · intro hheld
        exact (LockedLog.holder_release_cases other hheld).2
      · intro hheld
        apply LockedLog.release_other
        rw [hheld]
        simpa using hother

theorem Inv.commit (h : table.Inv) : (table.commit tx).Inv := by
  unfold FenceTable.commit
  split
  · rename_i row hphase
    obtain ⟨hholder, hpending⟩ := h.fenced tx row hphase
    have hpublishedHolder : (table.lock.publish tx).holder = some tx := by
      rw [LockedLog.holder_publish, hholder]
    have hfree : ((table.lock.publish tx).release tx).holder = none :=
      LockedLog.holder_release hpublishedHolder
    have hpublished : ((table.lock.publish tx).release tx).published =
        table.lock.published ++ [{ tx := tx, row := row }] := by
      rw [LockedLog.published_release, LockedLog.published_publish hholder, hpending]
    constructor
    · exact (h.ordered.publish hholder).release
    · rw [setPhase_lock, hpublished, List.getLast?_concat]
      rfl
    · intro other hother
      rw [setPhase_lock, hfree] at hother
      cases hother
    · intro other otherRow hother
      by_cases hsame : other = tx
      · subst hsame
        simp [setPhase] at hother
      · have hheld := (h.fenced other otherRow (by simpa [setPhase, hsame] using hother)).1
        rw [hholder] at hheld
        exact absurd (Option.some.inj hheld).symm hsame
    · intro other
      rw [setPhase_lock, hpublished]
      by_cases hsame : other = tx
      · subst hsame
        simp [setPhase]
      · have hbefore := h.committed other
        simpa [setPhase, hsame, Ne.symm hsame] using hbefore
  · exact h.abort
  · exact h

theorem Inv.step (h : table.Inv) (leaseKey : String) (event : FenceEvent W) :
    (fenceStep leaseKey table event).Inv := by
  cases event with
  | write tx write => exact h.write write
  | assertFence tx token holder now => exact h.assertFence leaseKey token holder now
  | commit tx => exact h.commit
  | abort tx => exact h.abort

/-- A call that gets the row succeeds exactly on the tokens from the largest committed on. -/
theorem Inv.accepts_iff (h : table.Inv) {leaseKey : String} {token : Int}
    {holder : Option String} {now : Int}
    (hobtains : table.Obtains leaseKey tx token holder now) :
    (∃ row, (table.assertFence leaseKey tx token holder now).phase tx = .fenced row) ↔
      ∀ update ∈ table.lock.published, update.row.fencingToken ≤ token := by
  obtain ⟨hphase, hfree, proposed, hproposed⟩ := hobtains
  rw [← h.latest_largest token]
  simp only [FenceTable.assertFence, hphase, hproposed, if_pos hfree]
  obtain ⟨-, ⟨hle, hok⟩ | ⟨seen, hseen, hlt, herror⟩⟩ := assertFence_cases hproposed table.fence
  · rw [hok]
    simpa [setPhase] using hle
  · rw [herror]
    simp [setPhase, hseen, hlt]

end FenceTable

end ZedSync.Postgres
