import Mathlib.Data.List.Basic

/-!
A log that transactions append to under one exclusive lock. A transaction adds its
entries while it holds the lock. They stay pending until it commits and publishes them,
or rolls back and drops them; either way it gives the lock up afterwards. So whatever
relates every entry to those before it when it is added relates the published ones.
-/

structure LockedLog (τ α : Type) where
  holder : Option τ := none
  pending : List α := []
  published : List α := []

namespace LockedLog

variable {τ α : Type}

/-- Each entry, published or pending, is related to the later ones, and only the holder
of the lock has entries pending. -/
structure Ordered (r : α → α → Prop) (log : LockedLog τ α) : Prop where
  sorted : (log.published ++ log.pending).Pairwise r
  idle : log.holder = none → log.pending = []

theorem Ordered.published {r : α → α → Prop} {log : LockedLog τ α} (h : log.Ordered r) :
    log.published.Pairwise r :=
  (List.pairwise_append.mp h.sorted).1

variable [DecidableEq τ]

/-- The lock is given to a transaction only while nobody, or that transaction, holds it. -/
def Free (log : LockedLog τ α) (tx : τ) : Prop := log.holder = none ∨ log.holder = some tx

instance (log : LockedLog τ α) (tx : τ) : Decidable (log.Free tx) :=
  inferInstanceAs (Decidable (_ ∨ _))

def acquire (log : LockedLog τ α) (tx : τ) : LockedLog τ α :=
  if log.Free tx then { log with holder := some tx } else log

def add (log : LockedLog τ α) (tx : τ) (entry : α) : LockedLog τ α :=
  if log.holder = some tx then { log with pending := log.pending ++ [entry] } else log

def publish (log : LockedLog τ α) (tx : τ) : LockedLog τ α :=
  if log.holder = some tx then
    { log with pending := [], published := log.published ++ log.pending }
  else log

/-- What is still pending is dropped. -/
def release (log : LockedLog τ α) (tx : τ) : LockedLog τ α :=
  if log.holder = some tx then { log with holder := none, pending := [] } else log

variable {log : LockedLog τ α} {tx : τ} {r : α → α → Prop}

@[simp] theorem published_acquire : (log.acquire tx).published = log.published := by
  unfold acquire
  split <;> rfl

@[simp] theorem pending_acquire : (log.acquire tx).pending = log.pending := by
  unfold acquire
  split <;> rfl

theorem holder_acquire (h : log.Free tx) : (log.acquire tx).holder = some tx := by
  simp [acquire, h]

@[simp] theorem published_add (entry : α) : (log.add tx entry).published = log.published := by
  unfold add
  split <;> rfl

@[simp] theorem holder_add (entry : α) : (log.add tx entry).holder = log.holder := by
  unfold add
  split <;> rfl

theorem pending_add (h : log.holder = some tx) (entry : α) :
    (log.add tx entry).pending = log.pending ++ [entry] := by
  simp [add, h]

@[simp] theorem holder_publish : (log.publish tx).holder = log.holder := by
  unfold publish
  split <;> rfl

theorem published_publish (h : log.holder = some tx) :
    (log.publish tx).published = log.published ++ log.pending := by
  simp [publish, h]

theorem publish_other (h : log.holder ≠ some tx) : log.publish tx = log := by
  simp [publish, h]

theorem pending_publish (h : log.holder = some tx) : (log.publish tx).pending = [] := by
  simp [publish, h]

@[simp] theorem published_release : (log.release tx).published = log.published := by
  unfold release
  split <;> rfl

theorem pending_release_subset : (log.release tx).pending ⊆ log.pending := by
  unfold release
  split
  · exact List.nil_subset _
  · exact List.Subset.refl _

theorem holder_release (h : log.holder = some tx) : (log.release tx).holder = none := by
  simp [release, h]

theorem holder_release_cases (other : τ) (h : (log.release tx).holder = some other) :
    other ≠ tx ∧ log.holder = some other := by
  unfold release at h
  split at h
  · cases h
  · rename_i hother
    refine ⟨?_, h⟩
    rintro rfl
    exact hother h

theorem release_other (h : log.holder ≠ some tx) : log.release tx = log := by
  simp [release, h]

theorem Ordered.acquire (h : log.Ordered r) : (log.acquire tx).Ordered r := by
  constructor
  · simpa using h.sorted
  · intro hnone
    rw [pending_acquire]
    unfold LockedLog.acquire at hnone
    split at hnone
    · cases hnone
    · exact h.idle hnone

theorem Ordered.add (h : log.Ordered r) (hholder : log.holder = some tx) {entry : α}
    (hentry : ∀ earlier ∈ log.published ++ log.pending, r earlier entry) :
    (log.add tx entry).Ordered r := by
  constructor
  · rw [published_add, pending_add hholder, ← List.append_assoc, List.pairwise_append]
    refine ⟨h.sorted, List.pairwise_singleton r entry, ?_⟩
    intro earlier hearlier later hlater
    obtain rfl := List.mem_singleton.mp hlater
    exact hentry earlier hearlier
  · intro hnone
    rw [holder_add, hholder] at hnone
    cases hnone

theorem Ordered.publish (h : log.Ordered r) (hholder : log.holder = some tx) :
    (log.publish tx).Ordered r := by
  constructor
  · rw [published_publish hholder, pending_publish hholder, List.append_nil]
    exact h.sorted
  · intro _
    exact pending_publish hholder

theorem Ordered.release (h : log.Ordered r) : (log.release tx).Ordered r := by
  unfold LockedLog.release
  split
  · exact ⟨by simpa using h.published, fun _ => rfl⟩
  · exact h

end LockedLog
