import Mathlib.Order.Lattice
import Mathlib.Tactic.ByContra

/-!
A register that keeps the newest of the values it is given, but that only some
values can bring into being: before the first of those, the others are lost.
The second half says for which sets of values the order and the repetition of
their arrival do not show.
-/

namespace Newest

variable {α β ν : Type} [LinearOrder ν] (version : α → ν) (creates : α → Bool)

/-- Keep a value unless it is older than the one kept. -/
def keep : Option α → α → Option α
  | none, value => if creates value then some value else none
  | some kept, value => if version kept ≤ version value then some value else some kept

/-- What the register holds after the values. -/
def kept (values : List α) : Option α := values.foldl (keep version creates) none

theorem keep_some (first : α) (values : List α) :
    ∃ newest ∈ first :: values,
      values.foldl (keep version creates) (some first) = some newest ∧
        ∀ value ∈ first :: values, version value ≤ version newest := by
  induction values generalizing first with
  | nil => exact ⟨first, by simp⟩
  | cons value values ih =>
      by_cases hle : version first ≤ version value
      · obtain ⟨newest, hmem, hfold, hbound⟩ := ih value
        refine ⟨newest, List.mem_cons_of_mem _ hmem, by simpa [keep, hle] using hfold, ?_⟩
        intro other hother
        rcases List.mem_cons.mp hother with rfl | hother
        · exact hle.trans (hbound value List.mem_cons_self)
        · exact hbound other hother
      · obtain ⟨newest, hmem, hfold, hbound⟩ := ih first
        have hsub : ∀ other ∈ first :: values, other ∈ first :: value :: values := by
          intro other hother
          rcases List.mem_cons.mp hother with rfl | hother
          · exact List.mem_cons_self
          · exact List.mem_cons_of_mem _ (List.mem_cons_of_mem _ hother)
        refine ⟨newest, hsub newest hmem, by simpa [keep, hle] using hfold, ?_⟩
        intro other hother
        simp only [List.mem_cons] at hother
        rcases hother with rfl | rfl | hother
        · exact hbound other List.mem_cons_self
        · exact (not_le.mp hle).le.trans (hbound first List.mem_cons_self)
        · exact hbound other (List.mem_cons_of_mem _ hother)

/-- What the register holds was there before, or is one of the values. -/
theorem keep_mem {before : Option α} {values : List α} {newest : α}
    (h : values.foldl (keep version creates) before = some newest) :
    before = some newest ∨ newest ∈ values := by
  induction values generalizing before with
  | nil => exact Or.inl h
  | cons value values ih =>
      rcases ih h with hkept | hlater
      · cases before with
        | none =>
            simp only [keep] at hkept
            split at hkept
            · exact Or.inr (Option.some.inj hkept ▸ List.mem_cons_self)
            · cases hkept
        | some kept =>
            simp only [keep] at hkept
            split at hkept
            · exact Or.inr (Option.some.inj hkept ▸ List.mem_cons_self)
            · exact Or.inl hkept
      · exact Or.inr (List.mem_cons_of_mem _ hlater)

/-- A last value that nothing outranks is kept, unless the register is empty and the
value creates nothing. -/
theorem keep_last {before : Option α} {earlier : List α} {last : α}
    (hbefore : ∀ kept, before = some kept → version kept ≤ version last)
    (hearlier : ∀ value ∈ earlier, version value ≤ version last) :
    (earlier ++ [last]).foldl (keep version creates) before = some last ∨
      (earlier ++ [last]).foldl (keep version creates) before = none ∧ creates last = false := by
  rw [List.foldl_append, List.foldl_cons, List.foldl_nil]
  cases hheld : earlier.foldl (keep version creates) before with
  | none =>
      cases hcreates : creates last with
      | true => exact Or.inl (by simp [keep, hcreates])
      | false => exact Or.inr ⟨by simp [keep, hcreates], rfl⟩
  | some held =>
      have hle : version held ≤ version last := by
        rcases keep_mem version creates hheld with hkept | hmem
        · exact hbefore held hkept
        · exact hearlier held hmem
      exact Or.inl (by simp [keep, hle])

/-- Values that are dropped before the last do not show: it is kept with them and without. -/
theorem thinned_shows {live : α → Option β} {before : Option α} {values thinned : List α}
    (hsub : thinned.Sublist values)
    (hlast : ∀ last, values.getLast? = some last → last ∈ thinned)
    (hsorted : values.Pairwise (version · < version ·))
    (hbefore : ∀ kept, before = some kept → ∀ value ∈ values, version kept ≤ version value)
    (hlive : ∀ value ∈ values, creates value = false → live value = none) :
    (thinned.foldl (keep version creates) before).bind live =
      (values.foldl (keep version creates) before).bind live := by
  have hshows : ∀ (earlier : List α) (last : α), last ∈ values →
      (∀ value ∈ earlier, version value ≤ version last) →
      ((earlier ++ [last]).foldl (keep version creates) before).bind live = live last := by
    intro earlier last hmem hearlier
    rcases keep_last version creates (fun kept hkept => hbefore kept hkept last hmem)
      hearlier with hkept | ⟨hempty, hcreates⟩
    · rw [hkept]
      rfl
    · rw [hempty, hlive last hmem hcreates]
      rfl
  cases hvalues : values.getLast? with
  | none =>
      have hnil : values = [] := List.getLast?_eq_none_iff.mp hvalues
      subst hnil
      rw [List.sublist_nil.mp hsub]
  | some last =>
      obtain ⟨earlier, rfl⟩ := List.getLast?_eq_some_iff.mp hvalues
      have hle : ∀ value ∈ earlier, version value ≤ version last := by
        intro value hvalue
        exact ((List.pairwise_append.mp hsorted).2.2 value hvalue last
          (List.mem_singleton_self last)).le
      have hlastMem : last ∈ earlier ++ [last] :=
        List.mem_append_right _ (List.mem_singleton_self _)
      obtain ⟨first, second, rfl, hfirst, hsecond⟩ := List.sublist_append_iff.mp hsub
      have hkeptLast : second = [last] := by
        rcases List.sublist_cons_iff.mp hsecond with hnil | ⟨rest, hrest, hnone⟩
        · rw [List.sublist_nil.mp hnil, List.append_nil] at hlast
          have hagain := hfirst.subset (hlast last hvalues)
          have hlt := (List.pairwise_append.mp hsorted).2.2 last hagain last
            (List.mem_singleton_self last)
          exact absurd hlt (lt_irrefl _)
        · rw [hrest, List.sublist_nil.mp hnone]
      subst hkeptLast
      rw [hshows first last hlastMem fun value hvalue => hle value (hfirst.subset hvalue),
        hshows earlier last hlastMem hle]

/-- Of ascending values some are dropped, but not the last. It is kept, unless the
register is empty and it creates nothing. -/
theorem keep_thinned {before : Option α} {values thinned : List α} {last : α}
    (hsub : thinned.Sublist values) (hmem : last ∈ thinned) (hlast : values.getLast? = some last)
    (hsorted : values.Pairwise (version · < version ·))
    (hbefore : ∀ kept, before = some kept → version kept ≤ version last) :
    thinned.foldl (keep version creates) before = some last ∨
      thinned.foldl (keep version creates) before = none ∧ creates last = false := by
  obtain ⟨init, rfl⟩ := List.getLast?_eq_some_iff.mp hlast
  have hbelow : ∀ value ∈ init, version value < version last := fun value hvalue =>
    (List.pairwise_append.mp hsorted).2.2 value hvalue last (List.mem_singleton_self last)
  obtain ⟨earlier, later, rfl⟩ := List.append_of_mem hmem
  have hnone : later = [] := by
    apply List.eq_nil_iff_forall_not_mem.mpr
    intro value hvalue
    have habove := (List.pairwise_append.mp (hsorted.sublist hsub)).2.1
    have hlt := (List.pairwise_cons.mp habove).1 value hvalue
    have hmem := hsub.subset (List.mem_append_right _ (List.mem_cons_of_mem _ hvalue))
    rcases List.mem_append.mp hmem with hinit | hself
    · exact absurd (hlt.trans (hbelow value hinit)) (lt_irrefl _)
    · rw [List.mem_singleton.mp hself] at hlt
      exact absurd hlt (lt_irrefl _)
  subst hnone
  apply keep_last version creates hbefore
  intro value hvalue
  rcases List.mem_append.mp (hsub.subset (List.mem_append_left _ hvalue)) with hinit | hself
  · exact (hbelow value hinit).le
  · rw [List.mem_singleton.mp hself]

/-- Values that create nothing leave the register empty. -/
theorem kept_eq_none {values : List α} (h : ∀ value ∈ values, creates value = false) :
    kept version creates values = none := by
  induction values with
  | nil => rfl
  | cons value values ih =>
      have hvalue := h value List.mem_cons_self
      have hrest := ih fun other hother => h other (List.mem_cons_of_mem _ hother)
      simpa [kept, keep, hvalue] using hrest

/-- Once a value creates the register, the newest from there on is kept; every
creating value is among these. -/
theorem kept_eq_some {values : List α} {creator : α} (hmem : creator ∈ values)
    (hcreates : creates creator = true) :
    ∃ newest ∈ values, kept version creates values = some newest ∧
      ∀ value ∈ values, creates value = true → version value ≤ version newest := by
  induction values with
  | nil => cases hmem
  | cons value values ih =>
      cases hvalue : creates value with
      | true =>
          obtain ⟨newest, hnewest, hfold, hbound⟩ := keep_some version creates value values
          refine ⟨newest, hnewest, by simpa [kept, keep, hvalue] using hfold, ?_⟩
          exact fun other hother _ => hbound other hother
      | false =>
          have hlater : creator ∈ values := by
            rcases List.mem_cons.mp hmem with rfl | hlater
            · simp [hcreates] at hvalue
            · exact hlater
          obtain ⟨newest, hnewest, hfold, hbound⟩ := ih hlater
          refine ⟨newest, List.mem_cons_of_mem _ hnewest,
            by simpa [kept, keep, hvalue] using hfold, ?_⟩
          intro other hother hother_creates
          rcases List.mem_cons.mp hother with rfl | hother
          · simp [hother_creates] at hvalue
          · exact hbound other hother hother_creates

/-- Of ascending values the last is kept, if the first creates the register. -/
theorem kept_last_ascending {values : List α} {last : α}
    (hlast : values.getLast? = some last) (hsorted : values.Pairwise (version · < version ·))
    (hfirst : ∀ first, values.head? = some first → creates first = true) :
    kept version creates values = some last := by
  rcases keep_thinned version creates (List.Sublist.refl values) (List.mem_of_getLast? hlast)
    hlast hsorted (fun kept (hkept : none = some kept) => nomatch hkept) with hkept | ⟨hempty, -⟩
  · exact hkept
  · cases hvalues : values with
    | nil =>
        rw [hvalues] at hlast
        cases hlast
    | cons first rest =>
        have hcreator : first ∈ values := hvalues ▸ List.mem_cons_self
        obtain ⟨newest, -, hkept, -⟩ :=
          kept_eq_some version creates hcreator (hfirst first (by rw [hvalues]; rfl))
        cases hkept.symm.trans hempty

theorem kept_skip {skipped : List α} (values : List α)
    (h : ∀ value ∈ skipped, creates value = false) :
    kept version creates (skipped ++ values) = kept version creates values := by
  have hskipped := kept_eq_none version creates h
  rw [kept] at hskipped ⊢
  rw [List.foldl_append, hskipped]
  rfl

/-- A sequence of arrivals: every value at least once, and no other. -/
def Covers {α : Type} (values arrivals : List α) : Prop :=
  ∀ value, value ∈ arrivals ↔ value ∈ values

/-- The newest of the values that create the register. -/
structure TopCreator (values : List α) (top : α) : Prop where
  mem : top ∈ values
  creator : creates top = true
  newest : ∀ value ∈ values, creates value = true → version value ≤ version top

theorem exists_topCreator {values : List α} {creator : α} (hmem : creator ∈ values)
    (hcreates : creates creator = true) : ∃ top, TopCreator version creates values top := by
  have hcreator : creator ∈ values.filter (creates ·) := List.mem_filter.mpr ⟨hmem, hcreates⟩
  obtain ⟨top, htop, _, hge⟩ := kept_eq_some version creates hcreator hcreates
  obtain ⟨htop, htopCreates⟩ := List.mem_filter.mp htop
  exact ⟨top, htop, htopCreates,
    fun value hvalue hcreates => hge value (List.mem_filter.mpr ⟨hvalue, hcreates⟩) hcreates⟩

section Top

variable {version creates} {values : List α} {top : α}
variable (hdistinct : ∀ a ∈ values, ∀ b ∈ values, version a = version b → a = b)
include hdistinct

theorem TopCreator.unique (h : TopCreator version creates values top) {other : α}
    (hother : other ∈ values) (hcreates : creates other = true)
    (hle : version top ≤ version other) : other = top :=
  hdistinct other hother top h.mem (le_antisymm (h.newest other hother hcreates) hle)

/-- With the creating values last, the newest of them stays. -/
theorem TopCreator.kept_last (h : TopCreator version creates values top) :
    kept version creates (values.filter (! creates ·) ++ values.filter (creates ·)) =
      some top := by
  have hcreator : top ∈ values.filter (creates ·) := List.mem_filter.mpr ⟨h.mem, h.creator⟩
  obtain ⟨newest, hnewest, hkept, hge⟩ := kept_eq_some version creates hcreator h.creator
  obtain ⟨hin, hcreates⟩ := List.mem_filter.mp hnewest
  have hsame := h.unique hdistinct hin hcreates (hge top hcreator h.creator)
  rw [kept_skip version creates _ (by simp), hkept, hsame]

/-- In every order of the arrivals the newest creating value decides what shows, when
it shows nothing or is the newest of all. -/
theorem TopCreator.shows (h : TopCreator version creates values top) {live : α → Option β}
    (hlive : ∀ value ∈ values, creates value = false → live value = none)
    (hcondition : live top = none ∨ ∀ value ∈ values, version value ≤ version top)
    {arrivals : List α} (hcovers : Covers values arrivals) :
    (kept version creates arrivals).bind live = live top := by
  obtain ⟨newest, hnewest, hkept, hge⟩ :=
    kept_eq_some version creates ((hcovers top).mpr h.mem) h.creator
  have hin := (hcovers newest).mp hnewest
  have hle := hge top ((hcovers top).mpr h.mem) h.creator
  rw [hkept, Option.bind_some]
  cases hcreates : creates newest with
  | true => rw [h.unique hdistinct hin hcreates hle]
  | false =>
      rw [hlive newest hin hcreates]
      rcases hcondition with hsilent | hall
      · exact hsilent.symm
      · have hsame := hdistinct newest hin top h.mem (le_antisymm (hall newest hin) hle)
        have hcreator := h.creator
        rw [← hsame, hcreates] at hcreator
        cases hcreator

end Top

/-- The newest creating value gives way when it comes before a newer one. -/
theorem TopCreator.kept_first {values : List α} {top later : α}
    (h : TopCreator version creates values top) (hlater : later ∈ values)
    (hnewer : version top < version later) :
    ∃ newest ∈ values, creates newest = false ∧
      kept version creates (top :: values) = some newest := by
  obtain ⟨newest, hnewest, hfold, hge⟩ := keep_some version creates top values
  have hin : newest ∈ values := by
    rcases List.mem_cons.mp hnewest with rfl | hin
    · exact h.mem
    · exact hin
  refine ⟨newest, hin, ?_, by simpa [kept, keep, h.creator] using hfold⟩
  by_contra hcreates
  simp only [Bool.not_eq_false] at hcreates
  have hle := hge later (List.mem_cons_of_mem _ hlater)
  exact absurd (h.newest newest hin hcreates) (not_le.mpr (hnewer.trans_le hle))

/-- The value shows the same for every order and repetition of the arrivals
exactly when the newest creating value shows nothing, or is the newest of all. -/
theorem arrivals_agree_iff (live : α → Option β) {values : List α}
    (hdistinct : ∀ a ∈ values, ∀ b ∈ values, version a = version b → a = b)
    (hlive : ∀ value ∈ values, creates value = false → live value = none) :
    (∀ first second, Covers values first → Covers values second →
      (kept version creates first).bind live = (kept version creates second).bind live) ↔
    ∀ top ∈ values, creates top = true →
      (∀ value ∈ values, creates value = true → version value ≤ version top) →
      live top = none ∨ ∀ value ∈ values, version value ≤ version top := by
  constructor
  · intro hagree top hmem hcreates hbound
    have htop : TopCreator version creates values top := ⟨hmem, hcreates, hbound⟩
    by_contra hne
    push Not at hne
    obtain ⟨hshows, later, hlater, hnewer⟩ := hne
    let last := values.filter (! creates ·) ++ values.filter (creates ·)
    have hlast : Covers values last := by
      intro value
      cases hvalue : creates value <;> simp [last, hvalue]
    have hfirst : Covers values (top :: values) := by
      intro value
      simp only [List.mem_cons, or_iff_right_iff_imp]
      rintro rfl
      exact hmem
    obtain ⟨newest, hin, hsilent, hkept⟩ := htop.kept_first version creates hlater hnewer
    have hequal := hagree last (top :: values) hlast hfirst
    rw [htop.kept_last hdistinct, hkept] at hequal
    exact hshows (hequal.trans (hlive newest hin hsilent))
  · intro hcondition
    by_cases hcreator : ∃ creator ∈ values, creates creator = true
    · obtain ⟨creator, hmem, hcreates⟩ := hcreator
      obtain ⟨top, htop⟩ := exists_topCreator version creates hmem hcreates
      have hdecides := hcondition top htop.mem htop.creator htop.newest
      intro first second hfirst hsecond
      rw [htop.shows hdistinct hlive hdecides hfirst, htop.shows hdistinct hlive hdecides hsecond]
    · push Not at hcreator
      have hempty : ∀ arrivals, Covers values arrivals →
          kept version creates arrivals = none := by
        intro arrivals hcovers
        refine kept_eq_none version creates fun value hvalue => ?_
        simpa using hcreator value ((hcovers value).mp hvalue)
      intro first second hfirst hsecond
      rw [hempty first hfirst, hempty second hsecond]

end Newest
