import Mathlib.Data.List.Basic
import Mathlib.Order.Lattice

/-!
A reader of a table that only grows by larger keys. It reads the rows after its
cursor, in the order of their keys and no more than a limit, and moves the cursor to
the last of them. It then has seen the rows up to its cursor, each once and in order.
-/

structure Feed (κ α : Type) where
  cursor : κ
  seen : List α

namespace Feed

variable {κ α : Type} [LinearOrder κ] (key : α → κ)

/-- `WHERE key > cursor ORDER BY key LIMIT limit`. -/
def page (cursor : κ) (limit : Nat) (rows : List α) : List α :=
  ((rows.filter fun row => decide (cursor < key row)).mergeSort
    fun first second => decide (key first ≤ key second)).take limit

def read (feed : Feed κ α) (limit : Nat) (rows : List α) : Feed κ α :=
  let rows := page key feed.cursor limit rows
  { cursor := (rows.getLast?.map key).getD feed.cursor
    seen := feed.seen ++ rows }

variable {key}

/-- The rows are in order, the reader has seen those up to its cursor, and the cursor is
where it started or at a row. -/
structure Follows (key : α → κ) (start : κ) (rows : List α) (feed : Feed κ α) : Prop where
  sorted : rows.Pairwise (key · < key ·)
  reached : feed.cursor = start ∨ ∃ row ∈ rows, feed.cursor = key row
  upTo : ∃ rest, rows = feed.seen ++ rest ∧ (∀ row ∈ feed.seen, key row ≤ feed.cursor) ∧
    ∀ row ∈ rest, feed.cursor < key row

variable {start : κ} {rows : List α} {feed : Feed κ α}

theorem Follows.front (h : feed.Follows key start rows) : feed.seen <+: rows := by
  obtain ⟨rest, hrows, -, -⟩ := h.upTo
  exact ⟨rest, hrows.symm⟩

/-- A page is what comes next in the rows. -/
theorem Follows.page_eq (h : feed.Follows key start rows) (limit : Nat) :
    page key feed.cursor limit rows = (rows.drop feed.seen.length).take limit := by
  obtain ⟨rest, hrows, hseen, hrest⟩ := h.upTo
  have hfilter : (rows.filter fun row => decide (feed.cursor < key row)) = rest := by
    have hnone : (feed.seen.filter fun row => decide (feed.cursor < key row)) = [] := by
      apply List.filter_eq_nil_iff.mpr
      intro row hrow
      simpa using hseen row hrow
    have hall : (rest.filter fun row => decide (feed.cursor < key row)) = rest := by
      apply List.filter_eq_self.mpr
      intro row hrow
      simpa using hrest row hrow
    rw [hrows, List.filter_append, hnone, hall, List.nil_append]
  have hsorted : rest.Pairwise fun first second => decide (key first ≤ key second) = true := by
    have hrestSorted := (List.pairwise_append.mp (hrows ▸ h.sorted)).2.1
    refine hrestSorted.imp ?_
    intro first second hlt
    simpa using hlt.le
  rw [page, hfilter, List.mergeSort_of_pairwise hsorted, hrows, List.drop_left]

theorem Follows.read (h : feed.Follows key start rows) (limit : Nat) :
    (feed.read key limit rows).Follows key start rows := by
  obtain ⟨rest, hrows, hseen, hrest⟩ := h.upTo
  have hpage : page key feed.cursor limit rows = rest.take limit := by
    rw [h.page_eq, hrows, List.drop_left]
  have hrestSorted : (rest.take limit ++ rest.drop limit).Pairwise (key · < key ·) := by
    rw [List.take_append_drop]
    exact (List.pairwise_append.mp (hrows ▸ h.sorted)).2.1
  have hsplit : rows = (feed.seen ++ rest.take limit) ++ rest.drop limit := by
    rw [List.append_assoc, List.take_append_drop, hrows]
  refine ⟨h.sorted, ?_, rest.drop limit, ?_⟩
  · cases hlast : (rest.take limit).getLast? with
    | none =>
        rcases h.reached with hcursor | hcursor
        · exact Or.inl (by simpa [Feed.read, hpage, hlast] using hcursor)
        · exact Or.inr (by simpa [Feed.read, hpage, hlast] using hcursor)
    | some last =>
        have hmem : last ∈ rows := by
          rw [hsplit]
          exact List.mem_append_left _
            (List.mem_append_right _ (List.mem_of_getLast? hlast))
        exact Or.inr ⟨last, hmem, by simp [Feed.read, hpage, hlast]⟩
  · simp only [Feed.read, hpage]
    cases hlast : (rest.take limit).getLast? with
    | none =>
        have hempty : rest.take limit = [] := List.getLast?_eq_none_iff.mp hlast
        rw [hempty] at hsplit ⊢
        refine ⟨hsplit, ?_, ?_⟩
        · simpa using hseen
        · intro row hrow
          exact hrest row (List.mem_of_mem_drop hrow)
    | some last =>
        obtain ⟨before, hbefore⟩ := List.getLast?_eq_some_iff.mp hlast
        have hmem : last ∈ rest.take limit := List.mem_of_getLast? hlast
        refine ⟨hsplit, ?_, ?_⟩
        · intro row hrow
          rcases List.mem_append.mp hrow with hrow | hrow
          · have hlater : feed.cursor < key last := hrest last (List.mem_of_mem_take hmem)
            exact ((hseen row hrow).trans_lt hlater).le
          · have hbatch := (List.pairwise_append.mp hrestSorted).1
            rw [hbefore] at hrow hbatch
            rcases List.mem_append.mp hrow with hrow | hrow
            · exact ((List.pairwise_append.mp hbatch).2.2 row hrow last
                (List.mem_singleton_self last)).le
            · obtain rfl := List.mem_singleton.mp hrow
              exact le_rfl
        · intro row hrow
          exact (List.pairwise_append.mp hrestSorted).2.2 last hmem row hrow

/-- Rows after all others, and after the start, leave the reader where it is. -/
theorem Follows.append (h : feed.Follows key start rows) {later : List α}
    (hsorted : (rows ++ later).Pairwise (key · < key ·))
    (hstart : ∀ row ∈ later, start < key row) : feed.Follows key start (rows ++ later) := by
  obtain ⟨rest, hrows, hseen, hrest⟩ := h.upTo
  have hlater := (List.pairwise_append.mp hsorted).2.2
  refine ⟨hsorted, ?_, rest ++ later, ?_, hseen, ?_⟩
  · rcases h.reached with hcursor | ⟨row, hrow, hcursor⟩
    · exact Or.inl hcursor
    · exact Or.inr ⟨row, List.mem_append_left later hrow, hcursor⟩
  · rw [← List.append_assoc, ← hrows]
  · intro row hrow
    rcases List.mem_append.mp hrow with hrow | hrow
    · exact hrest row hrow
    · rcases h.reached with hcursor | ⟨last, hlast, hcursor⟩
      · rw [hcursor]
        exact hstart row hrow
      · rw [hcursor]
        exact hlater last hlast row hrow

end Feed
