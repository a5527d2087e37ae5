import Mathlib.Data.List.Basic

/-!
A local write from its enqueue to the end of a run, whichever client it is of. A client
keeps a write in two places, its row and the queue, and what runs beside the write may
take it out of either.
-/

namespace ZedSync

/-- Where a client keeps its writes: all it queued so far, the one its row holds, and those
in the queue. Of the writes that are `asked` about, the `newer` ones are to stay. -/
structure Keeper (World W : Type) where
  logged : World → List W
  inRow : W → World → Prop
  inQueue : W → World → Prop
  asked : W → Prop
  newer : W → Prop

namespace Keeper

variable {World W : Type} (keeper : Keeper World W)

/-- What the others guarantee the writes that a run queues which found `started` of them. -/
def Spares (started : Nat) (before after : World) : Prop :=
  keeper.logged after = keeper.logged before ∧
    ∀ write, keeper.asked write → keeper.newer write →
      (keeper.inRow write before → keeper.inRow write after) ∧
        (write ∈ (keeper.logged before).drop started →
          keeper.inQueue write before → keeper.inQueue write after)

/-- The write is in place. -/
def InPlace (write : W) (world : World) : Prop :=
  keeper.inRow write world ∧ keeper.inQueue write world

/-- The write is the only one queued since `before`, and in place if it is a newer one. -/
structure Holding (before : List W) (write : W) (world : World) : Prop where
  logged : keeper.logged world = before ++ [write]
  asked : keeper.asked write
  inPlace : keeper.newer write → keeper.InPlace write world

/-- What a finished write leaves: if it queued a newer one, that is in place, unless it was
acknowledged. -/
def Kept (acked : Prop) (before : List W) (world : World) : Prop :=
  ∀ write, keeper.logged world = before ++ [write] → keeper.newer write →
    acked ∨ keeper.InPlace write world ∧ keeper.asked write

variable {keeper} {started : Nat} {before : List W} {write : W} {a b c : World}

theorem spares_refl (world : World) : keeper.Spares started world world :=
  ⟨rfl, fun _ _ _ => ⟨fun h => h, fun _ h => h⟩⟩

theorem spares_trans (hab : keeper.Spares started a b) (hbc : keeper.Spares started b c) :
    keeper.Spares started a c := by
  refine ⟨hbc.1.trans hab.1, fun write hasked hnewer => ?_⟩
  obtain ⟨hrow, hentry⟩ := hab.2 write hasked hnewer
  obtain ⟨hrow', hentry'⟩ := hbc.2 write hasked hnewer
  exact ⟨hrow' ∘ hrow, fun hlogged hqueued =>
    hentry' (hab.1 ▸ hlogged) (hentry hlogged hqueued)⟩

/-- What is spared stays in place. -/
theorem Spares.inPlace (h : keeper.Spares before.length a b)
    (hlogged : keeper.logged a = before ++ [write]) (hasked : keeper.asked write)
    (hnewer : keeper.newer write) (hplace : keeper.InPlace write a) :
    keeper.InPlace write b := by
  obtain ⟨hrow, hentry⟩ := h.2 write hasked hnewer
  exact ⟨hrow hplace.1, hentry (by simp [hlogged]) hplace.2⟩

theorem Holding.spares (h : keeper.Holding before write a)
    (hspares : keeper.Spares before.length a b) : keeper.Holding before write b :=
  ⟨hspares.1.trans h.logged, h.asked, fun hnewer =>
    hspares.inPlace h.logged h.asked hnewer (h.inPlace hnewer)⟩

theorem Holding.kept (h : keeper.Holding before write a) (acked : Prop) :
    keeper.Kept acked before a := by
  intro other hlogged hnewer
  obtain rfl : write = other := by simpa [h.logged] using hlogged
  exact Or.inr ⟨h.inPlace hnewer, h.asked⟩

theorem Kept.spares {acked : Prop} (h : keeper.Kept acked before a)
    (hspares : keeper.Spares before.length a b) : keeper.Kept acked before b := by
  intro write hlogged hnewer
  have hlogged : keeper.logged a = before ++ [write] := hspares.1.symm.trans hlogged
  rcases h write hlogged hnewer with hacked | ⟨hplace, hasked⟩
  · exact Or.inl hacked
  · exact Or.inr ⟨hspares.inPlace hlogged hasked hnewer hplace, hasked⟩

/-- A run that queues nothing leaves nothing to keep. -/
theorem kept_of_same {acked : Prop} (h : keeper.logged a = before) :
    keeper.Kept acked before a := by
  intro write hlogged
  simp [h] at hlogged

end Keeper

end ZedSync
