import Mathlib.Logic.Relation
import Mathlib.Data.List.Basic
import Mathlib.Order.MinMax
import ZedSync.Lib.Run

/-!
Places with a clock each, that pass stamps on. Every event moves the clock of its
place and is stamped with it; a stamp of an earlier event may arrive with it, from
any place, late, again, or never. One event is before another where a chain of steps
at one place and of stamps taken in leads from it to the other.
-/

namespace Causality

variable {π σ ι τ : Type}

/-- A clock: what an event with `input` makes of it, with the stamp that arrived. -/
structure Clockwork (σ ι τ : Type) where
  stamp : σ → τ
  step : σ → ι → Option τ → σ
  /-- The event takes the stamp in. -/
  Takes : ι → τ → Prop

structure Event (π ι : Type) where
  place : π
  input : ι
  hears : Option Nat
  deriving Repr

/-- An event that happened, with its stamp. -/
structure Entry (π ι τ : Type) extends Event π ι where
  stamp : τ

structure World (π σ ι τ : Type) where
  clock : π → σ
  history : List (Entry π ι τ)

namespace World

/-- The stamp that arrives with an event, if the event it belongs to happened. -/
def heard (world : World π σ ι τ) (event : Event π ι) : Option τ :=
  event.hears.bind fun index => world.history[index]?.map Entry.stamp

end World

namespace Clockwork

variable (work : Clockwork σ ι τ)

/-- The clock of the place of an event, after it. -/
def moved (world : World π σ ι τ) (event : Event π ι) : σ :=
  work.step (world.clock event.place) event.input (world.heard event)

def happen [DecidableEq π] (world : World π σ ι τ) (event : Event π ι) : World π σ ι τ :=
  { clock := fun place => if place = event.place then work.moved world event
      else world.clock place
    history := world.history ++ [{ event with stamp := work.stamp (work.moved world event) }] }

def run [DecidableEq π] (fresh : π → σ) (events : List (Event π ι)) : World π σ ι τ :=
  Run.final work.happen { clock := fresh, history := [] } events

end Clockwork

/-- Every event leaves one entry. -/
theorem Clockwork.length_final [DecidableEq π] (work : Clockwork σ ι τ) (start : World π σ ι τ)
    (events : List (Event π ι)) :
    (Run.final work.happen start events).history.length =
      start.history.length + events.length := by
  induction events generalizing start with
  | nil => rfl
  | cons event events ih =>
      rw [Run.final_cons, ih, List.length_cons]
      simp only [Clockwork.happen, List.length_append, List.length_singleton]
      omega

/-- One event leads to the next: at the same place, or by its stamp. -/
def Leads (work : Clockwork σ ι τ) (history : List (Entry π ι τ)) (i j : Nat) : Prop :=
  i < j ∧ ∃ earlier later, history[i]? = some earlier ∧ history[j]? = some later ∧
    (earlier.place = later.place ∨
      later.hears = some i ∧ work.Takes later.input earlier.stamp)

/-- The event is in the past of the other. -/
def Before (work : Clockwork σ ι τ) (history : List (Entry π ι τ)) : Nat → Nat → Prop :=
  Relation.TransGen (Leads work history)

/-- The same event, or one in its past. -/
def Past (work : Clockwork σ ι τ) (history : List (Entry π ι τ)) : Nat → Nat → Prop :=
  Relation.ReflTransGen (Leads work history)

section History

variable {work : Clockwork σ ι τ} {history : List (Entry π ι τ)} {entry : Entry π ι τ} {i j : Nat}

theorem getElem?_snoc_of_lt {later : Entry π ι τ} (h : history[i]? = some later) :
    (history ++ [entry])[i]? = some later := by
  obtain ⟨hlt, hget⟩ := List.getElem?_eq_some_iff.mp h
  rw [List.getElem?_append_left hlt, h]

theorem getElem?_snoc_cases {later : Entry π ι τ} (h : (history ++ [entry])[i]? = some later) :
    history[i]? = some later ∨ i = history.length ∧ later = entry := by
  rcases Nat.lt_or_ge i history.length with hlt | hge
  · rw [List.getElem?_append_left hlt] at h
    exact Or.inl h
  · rw [List.getElem?_append_right hge] at h
    rcases Nat.eq_zero_or_pos (i - history.length) with hzero | hpos
    · rw [hzero, List.getElem?_cons_zero] at h
      exact Or.inr ⟨by omega, (Option.some.inj h).symm⟩
    · rw [List.getElem?_eq_none (by simp only [List.length_singleton]; omega)] at h
      cases h

theorem Leads.snoc (h : Leads work history i j) : Leads work (history ++ [entry]) i j := by
  obtain ⟨hlt, earlier, later, hearlier, hlater, hleads⟩ := h
  exact ⟨hlt, earlier, later, getElem?_snoc_of_lt hearlier, getElem?_snoc_of_lt hlater, hleads⟩

theorem Past.snoc (h : Past work history i j) : Past work (history ++ [entry]) i j := by
  induction h with
  | refl => exact .refl
  | tail _ hleads ih => exact ih.tail hleads.snoc

/-- An entry before the newest one was there before it. -/
theorem getElem?_of_snoc {earlier later : Entry π ι τ} (hlt : i < j)
    (hearlier : (history ++ [entry])[i]? = some earlier)
    (hlater : (history ++ [entry])[j]? = some later) : history[i]? = some earlier := by
  rcases getElem?_snoc_cases hearlier with hbefore | ⟨rfl, -⟩
  · exact hbefore
  · obtain ⟨hbound, -⟩ := List.getElem?_eq_some_iff.mp hlater
    simp only [List.length_append, List.length_singleton] at hbound
    omega

end History

section Order

variable {work : Clockwork σ ι τ} {r : τ → τ → Prop}

/-- The event raises the clock of its place, also above the stamp it takes in. -/
def Raises (work : Clockwork σ ι τ) (r : τ → τ → Prop) (world : World π σ ι τ)
    (event : Event π ι) : Prop :=
  r (work.stamp (world.clock event.place)) (work.stamp (work.moved world event)) ∧
    ∀ stamp, world.heard event = some stamp → work.Takes event.input stamp →
      r stamp (work.stamp (work.moved world event))

/-- What events that raise their clock keep: no clock is behind a stamp of its place,
and one event leads to another only up. -/
structure Ordered (work : Clockwork σ ι τ) (r : τ → τ → Prop) (world : World π σ ι τ) :
    Prop where
  reached : ∀ entry ∈ world.history, entry.stamp = work.stamp (world.clock entry.place) ∨
    r entry.stamp (work.stamp (world.clock entry.place))
  rises : ∀ i j earlier later, Leads work world.history i j → world.history[i]? = some earlier →
    world.history[j]? = some later → r earlier.stamp later.stamp

theorem Ordered.happen [DecidableEq π] (htrans : ∀ a b c, r a b → r b c → r a c)
    {world : World π σ ι τ} {event : Event π ι} (h : Ordered work r world)
    (hraises : Raises work r world event) :
    Ordered work r (work.happen world event) := by
  obtain ⟨hown, hover⟩ := hraises
  have habove : ∀ entry ∈ world.history, entry.place = event.place →
      r entry.stamp (work.stamp (work.moved world event)) := by
    intro entry hmem hplace
    rcases h.reached entry hmem with hsame | hbelow
    · rw [hsame, hplace]
      exact hown
    · rw [hplace] at hbelow
      exact htrans _ _ _ hbelow hown
  refine ⟨?_, ?_⟩
  · intro entry hmem
    rcases List.mem_append.mp hmem with hold | hnew
    · by_cases hplace : entry.place = event.place
      · simp only [Clockwork.happen, hplace, if_true]
        exact Or.inr (habove entry hold hplace)
      · simp only [Clockwork.happen, hplace, if_false]
        exact h.reached entry hold
    · obtain rfl := List.mem_singleton.mp hnew
      simp [Clockwork.happen]
  · intro i j earlier later hleads hearlier hlater
    obtain ⟨hlt, _, _, hearlier', hlater', hlink⟩ := hleads
    cases hearlier.symm.trans hearlier'
    cases hlater.symm.trans hlater'
    have hbefore := getElem?_of_snoc hlt hearlier hlater
    rcases getElem?_snoc_cases hlater with hold | ⟨rfl, rfl⟩
    · exact h.rises i j earlier later ⟨hlt, earlier, later, hbefore, hold, hlink⟩ hbefore hold
    · rcases hlink with hplace | ⟨hhears, htakes⟩
      · exact habove earlier (List.mem_of_getElem? hbefore) hplace
      · have hheard : world.heard event = some earlier.stamp := by
          have hevent : event.hears = some i := hhears
          simp [World.heard, hevent, hbefore]
        exact hover earlier.stamp hheard htakes

/-- In a run whose events raise their clocks no clock is behind. -/
theorem run_ordered [DecidableEq π] (htrans : ∀ a b c, r a b → r b c → r a c) (fresh : π → σ)
    {events : List (Event π ι)}
    (h : Run.Along work.happen (Raises work r) { clock := fresh, history := [] } events) :
    Ordered work r (work.run fresh events) := by
  apply Run.induction (J := Ordered work r) (fun _ _ hordered => hordered.happen htrans) _ h
  refine ⟨by simp, ?_⟩
  intro i j earlier later _ hearlier _
  simp at hearlier

/-- What is before another event has the lower stamp. -/
theorem Ordered.before (htrans : ∀ a b c, r a b → r b c → r a c) {world : World π σ ι τ}
    (h : Ordered work r world) {i j : Nat} (hbefore : Before work world.history i j)
    {earlier later : Entry π ι τ} (hearlier : world.history[i]? = some earlier)
    (hlater : world.history[j]? = some later) : r earlier.stamp later.stamp := by
  induction hbefore generalizing later with
  | single hleads => exact h.rises _ _ _ _ hleads hearlier hlater
  | tail _ hleads ih =>
      have hleads' := hleads
      obtain ⟨-, middle, -, hmiddle, -⟩ := hleads'
      exact htrans _ _ _ (ih hmiddle) (h.rises _ _ _ _ hleads hmiddle hlater)

/-- Two events of one place are before one another. -/
theorem leads_of_place {history : List (Entry π ι τ)} {i j : Nat} {earlier later : Entry π ι τ}
    (hlt : i < j) (hearlier : history[i]? = some earlier) (hlater : history[j]? = some later)
    (hplace : earlier.place = later.place) : Leads work history i j :=
  ⟨hlt, earlier, later, hearlier, hlater, Or.inl hplace⟩

end Order

section Reading

variable {κ : Type} [LinearOrder κ] {work : Clockwork σ ι τ} {level : τ → κ} {reading : ι → κ}

/-- The level an event leaves is the highest of its reading, of the level its place had,
and of the stamp it takes in. -/
structure Follows (work : Clockwork σ ι τ) (level : τ → κ) (reading : ι → κ)
    (world : World π σ ι τ) (event : Event π ι) : Prop where
  reads : reading event.input ≤ level (work.stamp (work.moved world event))
  keeps : level (work.stamp (world.clock event.place)) ≤
    level (work.stamp (work.moved world event))
  takes : ∀ stamp, world.heard event = some stamp → work.Takes event.input stamp →
    level stamp ≤ level (work.stamp (work.moved world event))
  least : level (work.stamp (work.moved world event)) = reading event.input ∨
    level (work.stamp (work.moved world event)) = level (work.stamp (world.clock event.place)) ∨
    ∃ stamp, world.heard event = some stamp ∧ work.Takes event.input stamp ∧
      level (work.stamp (work.moved world event)) = level stamp

/-- The level of every stamp is the highest reading in its past. -/
def HighestReading (work : Clockwork σ ι τ) (level : τ → κ) (reading : ι → κ)
    (history : List (Entry π ι τ)) : Prop :=
  ∀ (j : Nat) (later : Entry π ι τ), history[j]? = some later →
    (∀ (i : Nat) (earlier : Entry π ι τ), Past work history i j → history[i]? = some earlier →
      reading earlier.input ≤ level later.stamp) ∧
    ∃ (i : Nat) (earlier : Entry π ι τ), Past work history i j ∧ history[i]? = some earlier ∧
      level later.stamp = reading earlier.input

/-- Each clock is fresh, or stands where an event of its place left it; and the level of
every stamp was read in its past. -/
structure Found (work : Clockwork σ ι τ) (level : τ → κ) (reading : ι → κ) (fresh : π → σ)
    (world : World π σ ι τ) : Prop where
  clock : ∀ place, world.clock place = fresh place ∨
    ∃ (i : Nat) (entry : Entry π ι τ), world.history[i]? = some entry ∧ entry.place = place ∧
      entry.stamp = work.stamp (world.clock place)
  found : ∀ (j : Nat) (later : Entry π ι τ), world.history[j]? = some later →
    ∃ (i : Nat) (earlier : Entry π ι τ), Past work world.history i j ∧
      world.history[i]? = some earlier ∧ level later.stamp = reading earlier.input

theorem Found.happen [DecidableEq π] {fresh : π → σ}
    (hlow : ∀ place input, level (work.stamp (fresh place)) ≤ reading input)
    {world : World π σ ι τ} {event : Event π ι} (h : Found work level reading fresh world)
    (hfollows : Follows work level reading world event) :
    Found work level reading fresh (work.happen world event) := by
  have hnew : (work.happen world event).history[world.history.length]? =
      some { event with stamp := work.stamp (work.moved world event) } := by
    simp [Clockwork.happen]
  -- what an earlier event had in its past the new one has, where that event leads to it
  have hinherits : ∀ i earlier, world.history[i]? = some earlier →
      Leads work (work.happen world event).history i world.history.length →
      ∃ k first, Past work (work.happen world event).history k world.history.length ∧
        (work.happen world event).history[k]? = some first ∧
        level earlier.stamp = reading first.input := by
    intro i earlier hearlier hleads
    obtain ⟨k, first, hpast, hfirst, hlevel⟩ := h.found i earlier hearlier
    exact ⟨k, first, hpast.snoc.tail hleads, getElem?_snoc_of_lt hfirst, hlevel⟩
  refine ⟨?_, ?_⟩
  · intro place
    by_cases hplace : place = event.place
    · exact Or.inr ⟨_, _, hnew, hplace.symm, by simp [Clockwork.happen, hplace]⟩
    · simp only [Clockwork.happen, hplace, if_false]
      rcases h.clock place with hfresh | ⟨i, entry, hentry, hat, hstamp⟩
      · exact Or.inl hfresh
      · exact Or.inr ⟨i, entry, getElem?_snoc_of_lt hentry, hat, hstamp⟩
  · intro j later hlater
    rcases getElem?_snoc_cases hlater with hold | ⟨rfl, rfl⟩
    · obtain ⟨i, earlier, hpast, hearlier, hlevel⟩ := h.found j later hold
      exact ⟨i, earlier, hpast.snoc, getElem?_snoc_of_lt hearlier, hlevel⟩
    · rcases hfollows.least with hreading | hown | ⟨stamp, hheard, htakes, hlevel⟩
      · exact ⟨_, _, .refl, hnew, hreading⟩
      · rcases h.clock event.place with hfresh | ⟨i, entry, hentry, hat, hstamp⟩
        · refine ⟨_, _, .refl, hnew, le_antisymm ?_ hfollows.reads⟩
          rw [hown, hfresh]
          exact hlow event.place event.input
        · have hlt := (List.getElem?_eq_some_iff.mp hentry).1
          have hleads : Leads work (work.happen world event).history i world.history.length :=
            leads_of_place hlt (getElem?_snoc_of_lt hentry) hnew hat
          obtain ⟨k, first, hpast, hfirst, hsame⟩ := hinherits i entry hentry hleads
          exact ⟨k, first, hpast, hfirst, (hown.trans (congrArg level hstamp.symm)).trans hsame⟩
      · obtain ⟨i, hhears, entry, hentry, rfl⟩ :
            ∃ i, event.hears = some i ∧ ∃ entry, world.history[i]? = some entry ∧
              entry.stamp = stamp := by
          simpa [World.heard, Option.bind_eq_some_iff] using hheard
        have hlt := (List.getElem?_eq_some_iff.mp hentry).1
        have hleads : Leads work (work.happen world event).history i world.history.length :=
          ⟨hlt, entry, _, getElem?_snoc_of_lt hentry, hnew, Or.inr ⟨hhears, htakes⟩⟩
        obtain ⟨k, first, hpast, hfirst, hsame⟩ := hinherits i entry hentry hleads
        exact ⟨k, first, hpast, hfirst, hlevel.trans hsame⟩

/-- In a run whose events follow their readings, from a level below all of them, the
level of every stamp is the highest reading in its past. -/
theorem highest_reading [DecidableEq π] {fresh : π → σ} {events : List (Event π ι)}
    (hlow : ∀ place input, level (work.stamp (fresh place)) ≤ reading input)
    (h : Run.Along work.happen (Follows work level reading) { clock := fresh, history := [] }
      events) :
    HighestReading work level reading (work.run fresh events).history := by
  have htrans : ∀ a b c : τ, level a ≤ level b → level b ≤ level c → level a ≤ level c :=
    fun _ _ _ => le_trans
  have hfound : Found work level reading fresh (work.run fresh events) := by
    apply Run.induction (J := Found work level reading fresh)
      (fun _ _ hfound hfollows => hfound.happen hlow hfollows) _ h
    exact ⟨fun _ => Or.inl rfl, fun j later hlater => by simp at hlater⟩
  have hordered : Ordered work (fun a b => level a ≤ level b) (work.run fresh events) := by
    apply run_ordered (r := fun a b => level a ≤ level b) htrans fresh
    exact h.mono fun _ _ hfollows => ⟨hfollows.keeps, hfollows.takes⟩
  have hreads : ∀ entry ∈ (work.run fresh events).history,
      reading entry.input ≤ level entry.stamp := by
    apply Run.induction (J := fun world : World π σ ι τ => ∀ entry ∈ world.history,
      reading entry.input ≤ level entry.stamp) _ (by simp) h
    intro world event hbefore hfollows entry hmem
    rcases List.mem_append.mp hmem with hold | hnew
    · exact hbefore entry hold
    · obtain rfl := List.mem_singleton.mp hnew
      exact hfollows.reads
  intro j later hlater
  refine ⟨?_, hfound.found j later hlater⟩
  intro i earlier hpast hearlier
  have hread := hreads earlier (List.mem_of_getElem? hearlier)
  rcases Relation.reflTransGen_iff_eq_or_transGen.mp hpast with rfl | hbefore
  · obtain rfl := Option.some.inj (hearlier.symm.trans hlater)
    exact hread
  · exact hread.trans (hordered.before htrans hbefore hearlier hlater)

end Reading

end Causality
