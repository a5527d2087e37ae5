import Mathlib.Data.List.Lex
import Mathlib.Order.Compare
import Mathlib.Order.Lattice

/-!
Lexicographic order of lists seen through a block encoding of their elements.
Text is stored as a concatenation of blocks, one per character, and compared
block-blind, unit by unit. An encoding whose blocks already differ in the
order of some rank makes that comparison the lexicographic order of the ranks.
Two encodings of the same elements may carry different ranks; the first
position where two lists differ then decides whether they order alike. Values
compared by several keys in turn are the same order with a sign for an answer.
Lists joined by a separator are told apart as far as the separator allows.
-/

namespace Lexicographic

variable {α β ρ σ : Type*}

/-- A nonempty block for every element, such that the blocks of two elements
of different rank differ, in the order of the ranks, whatever follows them. -/
structure OrderEncoding (α β ρ : Type*) [LinearOrder β] [LinearOrder ρ] where
  encode : α → List β
  rank : α → ρ
  rank_injective : Function.Injective rank
  encode_ne_nil : ∀ a, encode a ≠ []
  append_lt : ∀ a b xs ys, rank a < rank b → encode a ++ xs < encode b ++ ys

section Encoding

variable [LinearOrder β] [LinearOrder ρ] (code : OrderEncoding α β ρ)

theorem flatMap_lt_of_rank_lt (s t : List α) (h : s.map code.rank < t.map code.rank) :
    s.flatMap code.encode < t.flatMap code.encode := by
  induction s generalizing t with
  | nil =>
      cases t with
      | nil => simp at h
      | cons b bs =>
          have hne := code.encode_ne_nil b
          cases hblock : code.encode b with
          | nil => exact absurd hblock hne
          | cons unit units => simp [hblock]
  | cons a as ih =>
      cases t with
      | nil => simp at h
      | cons b bs =>
          simp only [List.map_cons, List.cons_lt_cons_iff] at h
          simp only [List.flatMap_cons]
          rcases h with hrank | ⟨hsame, htail⟩
          · exact code.append_lt a b _ _ hrank
          · have hab : a = b := code.rank_injective hsame
            subst hab
            exact List.append_left_lt (ih bs htail)

/-- Comparing the concatenated blocks is comparing the lists of ranks. -/
theorem flatMap_lt_iff (s t : List α) :
    s.flatMap code.encode < t.flatMap code.encode ↔
      s.map code.rank < t.map code.rank := by
  constructor
  · intro h
    rcases lt_trichotomy (s.map code.rank) (t.map code.rank) with hlt | heq | hgt
    · exact hlt
    · have hst : s = t := List.map_injective_iff.mpr code.rank_injective heq
      subst hst
      exact absurd h (lt_irrefl _)
    · exact absurd h (flatMap_lt_of_rank_lt code t s hgt).asymm
  · exact flatMap_lt_of_rank_lt code s t

theorem flatMap_injective : Function.Injective (List.flatMap code.encode) := by
  intro s t heq
  rcases lt_trichotomy (s.map code.rank) (t.map code.rank) with hlt | hsame | hgt
  · have h := flatMap_lt_of_rank_lt code s t hlt
    rw [heq] at h
    exact absurd h (lt_irrefl _)
  · exact List.map_injective_iff.mpr code.rank_injective hsame
  · have h := flatMap_lt_of_rank_lt code t s hgt
    rw [heq] at h
    exact absurd h (lt_irrefl _)

end Encoding

/-- The first position where two lists differ, when both still have an
element there. -/
def firstDiff [DecidableEq α] : List α → List α → Option (α × α)
  | a :: as, b :: bs => if a = b then firstDiff as bs else some (a, b)
  | _, _ => none

section FirstDiff

variable [DecidableEq α] [LinearOrder ρ] [LinearOrder σ]

theorem map_lt_iff_firstDiff (rank : α → ρ) (hrank : Function.Injective rank)
    (s t : List α) :
    s.map rank < t.map rank ↔
      match firstDiff s t with
      | some (a, b) => rank a < rank b
      | none => s.length < t.length := by
  induction s generalizing t with
  | nil => cases t <;> simp [firstDiff]
  | cons a as ih =>
      cases t with
      | nil => simp [firstDiff]
      | cons b bs =>
          by_cases hab : a = b
          · subst hab
            simpa [firstDiff, List.cons_lt_cons_iff] using ih bs
          · have hne : rank a ≠ rank b := fun h => hab (hrank h)
            simp [firstDiff, hab, hne, List.cons_lt_cons_iff]

/-- Two rankings order a pair of lists alike exactly when they order the
first differing pair of elements alike. -/
theorem map_lt_agree_iff (left : α → ρ) (right : α → σ)
    (hleft : Function.Injective left) (hright : Function.Injective right)
    (s t : List α) :
    (s.map left < t.map left ↔ s.map right < t.map right) ↔
      ∀ a b, firstDiff s t = some (a, b) → (left a < left b ↔ right a < right b) := by
  rw [map_lt_iff_firstDiff left hleft, map_lt_iff_firstDiff right hright]
  cases hdiff : firstDiff s t with
  | none => simp
  | some pair =>
      obtain ⟨a, b⟩ := pair
      constructor
      · intro h a' b' heq
        cases heq
        exact h
      · intro h
        exact h a b rfl

end FirstDiff

/-- Two pairs joined by a separator are one list exactly when they are one pair, or the
first part of one goes on, past a separator, with what the second part of the other
begins with. -/
theorem joined_eq_iff {separator : α} {first second first' second' : List α} :
    first ++ separator :: second = first' ++ separator :: second' ↔
      (first = first' ∧ second = second') ∨
        ∃ middle,
          (first' = first ++ separator :: middle ∧ second = middle ++ separator :: second') ∨
            (first = first' ++ separator :: middle ∧ second' = middle ++ separator :: second) := by
  constructor
  · intro h
    rcases List.append_eq_append_iff.mp h with ⟨rest, hfirst, hsecond⟩ | ⟨rest, hfirst, hsecond⟩
    · cases rest with
      | nil => exact Or.inl ⟨by simpa using hfirst.symm, (List.cons.inj hsecond).2⟩
      | cons value middle =>
          obtain ⟨rfl, hmiddle⟩ := List.cons.inj hsecond
          exact Or.inr ⟨middle, Or.inl ⟨hfirst, hmiddle⟩⟩
    · cases rest with
      | nil => exact Or.inl ⟨by simpa using hfirst, (List.cons.inj hsecond).2.symm⟩
      | cons value middle =>
          obtain ⟨rfl, hmiddle⟩ := List.cons.inj hsecond
          exact Or.inr ⟨middle, Or.inr ⟨hfirst, hmiddle⟩⟩
  · rintro (⟨rfl, rfl⟩ | ⟨middle, ⟨rfl, rfl⟩ | ⟨rfl, rfl⟩⟩)
    · rfl
    · simp
    · simp

/-- A list splits at the first separator in one way. -/
theorem split_at_first {separator : α} {first second first' second' : List α}
    (hfirst : separator ∉ first) (hfirst' : separator ∉ first')
    (h : first ++ separator :: second = first' ++ separator :: second') :
    first = first' ∧ second = second' := by
  rcases joined_eq_iff.mp h with hsame | ⟨middle, ⟨hlonger, -⟩ | ⟨hlonger, -⟩⟩
  · exact hsame
  · exact absurd (by simp [hlonger]) hfirst'
  · exact absurd (by simp [hlonger]) hfirst

section Keys

variable {κ : Type*} [LinearOrder β] [LinearOrder ρ] [LinearOrder κ]

/-- The sign of a comparison by three keys in turn. -/
def compareThree (a a' : β) (b b' : ρ) (c c' : κ) : Int :=
  if a ≠ a' then if a < a' then -1 else 1
  else if b ≠ b' then if b < b' then -1 else 1
  else if c = c' then 0
  else if c < c' then -1 else 1

theorem compareThree_neg_iff (a a' : β) (b b' : ρ) (c c' : κ) :
    compareThree a a' b b' c c' < 0 ↔ a < a' ∨ a = a' ∧ (b < b' ∨ b = b' ∧ c < c') := by
  unfold compareThree
  by_cases ha : a = a'
  · by_cases hb : b = b'
    · by_cases hc : c = c'
      · simp [ha, hb, hc]
      · by_cases hlt : c < c'
        · simp [ha, hb, hc, hlt]
        · simp [ha, hb, hc, hlt]
    · by_cases hlt : b < b'
      · simp [ha, hb, hlt]
      · simp [ha, hb, hlt]
  · by_cases hlt : a < a'
    · simp [ha, hlt]
    · simp [ha, hlt]

theorem compareThree_zero_iff (a a' : β) (b b' : ρ) (c c' : κ) :
    compareThree a a' b b' c c' = 0 ↔ a = a' ∧ b = b' ∧ c = c' := by
  unfold compareThree
  by_cases ha : a = a'
  · by_cases hb : b = b'
    · by_cases hc : c = c'
      · simp [ha, hb, hc]
      · cases lt_or_gt_of_ne hc with
        | inl hlt => simp [ha, hb, hc, hlt]
        | inr hgt => simp [ha, hb, hc, hgt.not_gt]
    · cases lt_or_gt_of_ne hb with
      | inl hlt => simp [ha, hb, hlt]
      | inr hgt => simp [ha, hb, hgt.not_gt]
  · cases lt_or_gt_of_ne ha with
    | inl hlt => simp [ha, hlt]
    | inr hgt => simp [ha, hgt.not_gt]

end Keys

end Lexicographic
