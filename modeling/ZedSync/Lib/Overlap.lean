import ZedSync.Lib.Run
import Mathlib.Data.List.Infix
import Mathlib.Logic.Function.Basic

/-!
Two threads that each read a shared cell, put back what they make of it, and then
publish what they put. Between their turns anything of the other may happen, so what
the cell and the publication end with depends on the order of three pairs of turns.
-/

namespace Overlap

section Order

variable {ι : Type} [DecidableEq ι]

/-- In the schedule one thread takes its `a`-th turn before another its `b`-th: whenever
the other has taken so many, the one has. -/
def Precedes (schedule : List ι) (i : ι) (a : Nat) (j : ι) (b : Nat) : Prop :=
  ∀ past ∈ schedule.inits, b ≤ past.count j → a ≤ past.count i

instance (schedule : List ι) (i : ι) (a : Nat) (j : ι) (b : Nat) :
    Decidable (Precedes schedule i a j b) :=
  inferInstanceAs (Decidable (∀ past ∈ schedule.inits, _))

variable {past : List ι} {i j : ι} {a b : Nat}

theorem Precedes.now (h : Precedes past i a j b) (hturn : b ≤ past.count j) :
    a ≤ past.count i :=
  h past ((List.mem_inits past past).mpr (List.prefix_refl past)) hturn

theorem precedes_of_lt (h : past.count j < b) : Precedes past i a j b := by
  intro earlier hearlier hturn
  have hle := ((List.mem_inits earlier past).mp hearlier).sublist.count_le j
  omega

theorem count_snoc_self (past : List ι) (turn : ι) :
    (past ++ [turn]).count turn = past.count turn + 1 := by
  rw [List.count_append, List.count_singleton_self]

theorem count_snoc_of_ne (past : List ι) {turn : ι} (h : turn ≠ i) :
    (past ++ [turn]).count i = past.count i := by
  have hnone : [turn].count i = 0 := List.count_eq_zero_of_not_mem (by simpa using h.symm)
  rw [List.count_append, hnone, Nat.add_zero]

theorem le_count_snoc (past : List ι) (turn : ι) : past.count i ≤ (past ++ [turn]).count i :=
  (List.sublist_append_left past [turn]).count_le i

theorem precedes_snoc (past : List ι) (turn : ι) :
    Precedes (past ++ [turn]) i a j b ↔
      Precedes past i a j b ∧
        (b ≤ (past ++ [turn]).count j → a ≤ (past ++ [turn]).count i) := by
  simp only [Precedes, List.mem_inits, List.prefix_concat_iff]
  constructor
  · intro h
    exact ⟨fun earlier hearlier => h earlier (Or.inr hearlier), h _ (Or.inl rfl)⟩
  · rintro ⟨hpast, hnow⟩ earlier (rfl | hearlier)
    · exact hnow
    · exact hpast earlier hearlier

/-- The order of two turns is settled when the second of them is taken. -/
theorem precedes_settled {turn : ι} (h : turn = j → past.count j + 1 ≠ b) :
    Precedes (past ++ [turn]) i a j b ↔ Precedes past i a j b := by
  rw [precedes_snoc, and_iff_left_iff_imp]
  intro hpast hturn
  refine Nat.le_trans (hpast.now ?_) (le_count_snoc past turn)
  by_cases hsame : turn = j
  · subst hsame
    rw [count_snoc_self] at hturn
    have hlast := h rfl
    omega
  · rwa [count_snoc_of_ne past hsame] at hturn

theorem precedes_now_iff (hne : i ≠ j) (h : past.count j + 1 = b) :
    Precedes (past ++ [j]) i a j b ↔ a ≤ past.count i := by
  rw [precedes_snoc, count_snoc_self, count_snoc_of_ne past hne.symm, h]
  constructor
  · intro hboth
    exact hboth.2 (Nat.le_refl b)
  · intro hle
    exact ⟨precedes_of_lt (by omega), fun _ => hle⟩

/-- Of two turns one comes first, if both are ever taken. -/
theorem precedes_total (past : List ι) (i : ι) (a : Nat) (j : ι) (b : Nat) :
    Precedes past i a j b ∨ Precedes past j b i a := by
  by_contra hneither
  simp only [Precedes, not_or, not_forall, Nat.not_le, List.mem_inits] at hneither
  obtain ⟨⟨first, hfirst, _, _⟩, second, hsecond, _, _⟩ := hneither
  rcases List.prefix_or_prefix_of_prefix hfirst hsecond with hle | hle
  · have hcount := hle.sublist.count_le j
    omega
  · have hcount := hle.sublist.count_le i
    omega

theorem exists_count_eq (h : b ≤ past.count j) :
    ∃ earlier ∈ past.inits, earlier.count j = b := by
  induction past using List.reverseRecOn with
  | nil => exact ⟨[], by simp, by simp_all⟩
  | append_singleton past turn ih =>
      by_cases hbefore : b ≤ past.count j
      · obtain ⟨earlier, hearlier, hcount⟩ := ih hbefore
        refine ⟨earlier, ?_, hcount⟩
        rw [List.mem_inits] at hearlier ⊢
        exact hearlier.trans (List.prefix_append past [turn])
      · refine ⟨past ++ [turn], (List.mem_inits _ _).mpr (List.prefix_refl _), ?_⟩
        by_cases hsame : turn = j
        · subst hsame
          rw [count_snoc_self] at h ⊢
          omega
        · rw [count_snoc_of_ne past hsame] at h
          omega

/-- What comes first does not come after an earlier turn of its own. -/
theorem Precedes.not_before (h : Precedes past i a j b) {c : Nat} (hc : c ≤ past.count i)
    (hlt : c < a) : ¬ Precedes past j b i c := by
  intro hlater
  obtain ⟨earlier, hearlier, hcount⟩ := exists_count_eq hc
  have hj := hlater earlier hearlier (by omega)
  have hi := h earlier hearlier hj
  omega

end Order

/-- The cell, what was published last, and of each of the two threads the value it is at
and the turns it has taken. -/
structure Shared (V : Type) where
  cell : V
  published : Option V
  held : Bool → V
  taken : Bool → Nat

section Machine

variable {V : Type}

namespace Shared

def start (cell : V) (published : Option V) : Shared V :=
  { cell := cell, published := published, held := fun _ => cell, taken := fun _ => 0 }

/-- One turn of a thread: after `lead` turns on other things it reads, puts what it makes
of that, and publishes it. -/
def step (make : Bool → V → V) (lead : Nat) (shared : Shared V) (thread : Bool) : Shared V :=
  let moved :=
    { shared with taken := Function.update shared.taken thread (shared.taken thread + 1) }
  if shared.taken thread = lead then
    { moved with held := Function.update shared.held thread shared.cell }
  else if shared.taken thread = lead + 1 then
    let made := make thread (shared.held thread)
    { moved with cell := made, held := Function.update shared.held thread made }
  else if shared.taken thread = lead + 2 then
    { moved with published := some (shared.held thread) }
  else moved

section Step

variable {make : Bool → V → V} {lead : Nat} {shared : Shared V} {thread : Bool}

theorem step_reads (h : shared.taken thread = lead) :
    shared.step make lead thread =
      { shared with
        taken := Function.update shared.taken thread (shared.taken thread + 1)
        held := Function.update shared.held thread shared.cell } := by
  rw [step, if_pos h]

theorem step_puts (h : shared.taken thread = lead + 1) :
    shared.step make lead thread =
      { shared with
        taken := Function.update shared.taken thread (shared.taken thread + 1)
        cell := make thread (shared.held thread)
        held := Function.update shared.held thread (make thread (shared.held thread)) } := by
  rw [step, if_neg (by omega), if_pos h]

theorem step_publishes (h : shared.taken thread = lead + 2) :
    shared.step make lead thread =
      { shared with
        taken := Function.update shared.taken thread (shared.taken thread + 1)
        published := some (shared.held thread) } := by
  rw [step, if_neg (by omega), if_neg (by omega), if_pos h]

theorem step_passes (hreads : shared.taken thread ≠ lead)
    (hputs : shared.taken thread ≠ lead + 1) (hpublishes : shared.taken thread ≠ lead + 2) :
    shared.step make lead thread =
      { shared with
        taken := Function.update shared.taken thread (shared.taken thread + 1) } := by
  rw [step, if_neg hreads, if_neg hputs, if_neg hpublishes]

/-- A turn is none of the other thread's. -/
theorem step_other (make : Bool → V → V) (lead : Nat) (shared : Shared V) {other : Bool}
    (h : other ≠ thread) :
    (shared.step make lead thread).taken other = shared.taken other ∧
      (shared.step make lead thread).held other = shared.held other := by
  unfold step
  dsimp only
  split
  · exact ⟨Function.update_of_ne h _ _, Function.update_of_ne h _ _⟩
  · split
    · exact ⟨Function.update_of_ne h _ _, Function.update_of_ne h _ _⟩
    · split
      · exact ⟨Function.update_of_ne h _ _, rfl⟩
      · exact ⟨Function.update_of_ne h _ _, rfl⟩

end Step

end Shared

variable (make : Bool → V → V) (lead : Nat) (cell : V) (published : Option V)

/-- What the thread reads: what the other put, if it had put already. -/
def readBy (past : List Bool) (thread : Bool) : V :=
  if Precedes past (!thread) (lead + 2) thread (lead + 1) then make (!thread) cell else cell

def madeBy (past : List Bool) (thread : Bool) : V :=
  make thread (readBy make lead cell past thread)

/-- The threads that have taken so many turns, and none of the other later. -/
def Last (past : List Bool) (thread : Bool) (turns : Nat) : Prop :=
  turns ≤ past.count thread ∧
    (turns ≤ past.count (!thread) → Precedes past (!thread) turns thread turns)

/-- The state after a schedule, by the order of its turns. -/
structure After (past : List Bool) (shared : Shared V) : Prop where
  taken : ∀ thread, shared.taken thread = past.count thread
  read : ∀ thread, past.count thread = lead + 1 →
    shared.held thread = readBy make lead cell past thread
  made : ∀ thread, lead + 2 ≤ past.count thread →
    shared.held thread = madeBy make lead cell past thread
  untouched : (∀ thread, past.count thread < lead + 2) → shared.cell = cell
  put : ∀ thread, Last past thread (lead + 2) →
    shared.cell = madeBy make lead cell past thread
  publish : ∀ thread, Last past thread (lead + 3) →
    shared.published = some (madeBy make lead cell past thread)

section Snoc

variable {make : Bool → V → V} {lead : Nat} {cell : V} {past : List Bool} {turn : Bool}

theorem readBy_snoc {thread : Bool} (h : past.count thread ≠ lead) :
    readBy make lead cell (past ++ [turn]) thread = readBy make lead cell past thread := by
  have hsettled : Precedes (past ++ [turn]) (!thread) (lead + 2) thread (lead + 1) ↔
      Precedes past (!thread) (lead + 2) thread (lead + 1) := by
    apply precedes_settled
    intro _ hnow
    omega
  simp only [readBy, hsettled]

theorem madeBy_snoc {thread : Bool} (h : past.count thread ≠ lead) :
    madeBy make lead cell (past ++ [turn]) thread = madeBy make lead cell past thread := by
  rw [madeBy, madeBy, readBy_snoc h]

/-- Who was last stays so, but on the turn it is about. -/
theorem last_of_snoc {thread : Bool} {turns : Nat} (h : Last (past ++ [turn]) thread turns)
    (hturn : turn = thread → past.count thread + 1 ≠ turns) : Last past thread turns := by
  obtain ⟨hcount, hprecedes⟩ := h
  refine ⟨?_, fun hother => ?_⟩
  · by_cases hsame : turn = thread
    · subst hsame
      rw [count_snoc_self] at hcount
      have hne := hturn rfl
      omega
    · rwa [count_snoc_of_ne past hsame] at hcount
  · have hlater := hprecedes (hother.trans (le_count_snoc past turn))
    rwa [precedes_settled hturn] at hlater

/-- Who takes the turn now is the last. -/
theorem not_last_other {turns : Nat} (h : past.count turn + 1 = turns) :
    ¬ Last (past ++ [turn]) (!turn) turns := by
  rintro ⟨hcount, hprecedes⟩
  have hne : turn ≠ !turn := by cases turn <;> simp
  rw [count_snoc_of_ne past hne] at hcount
  rw [Bool.not_not, count_snoc_self] at hprecedes
  have hlater := hprecedes (by omega)
  rw [precedes_settled (fun heq => absurd heq hne)] at hlater
  have hturns := hlater.now hcount
  omega

theorem eq_or_eq_not (thread turn : Bool) : thread = turn ∨ thread = !turn := by
  cases thread <;> cases turn <;> simp

/-- A value that the thread of its turn sets is always the last one's. -/
theorem last_value {β : Type} {turns : Nat} {old new : β} (value : V → β)
    (hturns : lead + 1 ≤ turns)
    (hnew : new = if past.count turn = turns then
      value (madeBy make lead cell (past ++ [turn]) turn) else old)
    (hold : ∀ thread, Last past thread (turns + 1) →
      old = value (madeBy make lead cell past thread)) :
    ∀ thread, Last (past ++ [turn]) thread (turns + 1) →
      new = value (madeBy make lead cell (past ++ [turn]) thread) := by
  intro thread hlast
  rw [hnew]
  split
  · rename_i hnow
    rcases eq_or_eq_not thread turn with rfl | rfl
    · rfl
    · exact absurd hlast (not_last_other (congrArg (· + 1) hnow))
  · rename_i hnow
    have hbefore := last_of_snoc hlast fun heq => by subst heq; omega
    have hpast := hbefore.1
    rw [hold thread hbefore, madeBy_snoc (by omega)]

/-- What a turn must do to follow the order. -/
theorem After.snoc {shared moved : Shared V}
    (h : After make lead cell past shared)
    (htaken : moved.taken = Function.update shared.taken turn (shared.taken turn + 1))
    (hother : moved.held (!turn) = shared.held (!turn))
    (hread : past.count turn = lead →
      moved.held turn = readBy make lead cell (past ++ [turn]) turn)
    (hmade : lead + 1 ≤ past.count turn →
      moved.held turn = madeBy make lead cell (past ++ [turn]) turn)
    (hcell : moved.cell = if past.count turn = lead + 1 then
      madeBy make lead cell (past ++ [turn]) turn else shared.cell)
    (hpublished : moved.published = if past.count turn = lead + 2 then
      some (madeBy make lead cell (past ++ [turn]) turn) else shared.published) :
    After make lead cell (past ++ [turn]) moved := by
  have hne : turn ≠ !turn := by cases turn <;> simp
  have hcount := count_snoc_self past turn
  have hcountOther := count_snoc_of_ne past hne
  refine ⟨?_, ?_, ?_, ?_, ?_, ?_⟩
  · intro thread
    rw [htaken]
    rcases eq_or_eq_not thread turn with rfl | rfl
    · rw [Function.update_self, h.taken, hcount]
    · rw [Function.update_of_ne hne.symm, h.taken, hcountOther]
  · intro thread hat
    rcases eq_or_eq_not thread turn with rfl | rfl
    · exact hread (by omega)
    · rw [hcountOther] at hat
      rw [hother, h.read _ hat, readBy_snoc (by omega)]
  · intro thread hpast
    rcases eq_or_eq_not thread turn with rfl | rfl
    · exact hmade (by omega)
    · rw [hcountOther] at hpast
      rw [hother, h.made _ hpast, madeBy_snoc (by omega)]
  · intro hnone
    have hturn := hnone turn
    rw [hcell, if_neg (by omega)]
    exact h.untouched fun thread =>
      Nat.lt_of_le_of_lt (le_count_snoc past turn) (hnone thread)
  · exact last_value id (Nat.le_refl _) hcell h.put
  · exact last_value some (Nat.le_succ _) hpublished h.publish

/-- A thread that reads now reads what the other put, if it has. -/
theorem After.cell_eq {shared : Shared V} (h : After make lead cell past shared)
    (hturn : past.count turn = lead) :
    shared.cell = readBy make lead cell (past ++ [turn]) turn := by
  have hne : (!turn) ≠ turn := by cases turn <;> simp
  have hseen := precedes_now_iff (a := lead + 2) hne (congrArg (· + 1) hturn)
  rw [readBy]
  split
  · rename_i hbefore
    have hput := hseen.mp hbefore
    have hlast : Last past (!turn) (lead + 2) :=
      ⟨hput, fun hother => by rw [Bool.not_not] at hother; omega⟩
    have hunseen : ¬ Precedes past (!!turn) (lead + 2) (!turn) (lead + 1) := by
      intro hother
      have hlater := hother.now (by omega)
      rw [Bool.not_not] at hlater
      omega
    rw [h.put _ hlast, madeBy, readBy, if_neg hunseen]
  · rename_i hbefore
    have hnone : ¬ lead + 2 ≤ past.count (!turn) := fun hput => hbefore (hseen.mpr hput)
    apply h.untouched
    intro thread
    rcases eq_or_eq_not thread turn with rfl | rfl
    · omega
    · omega

theorem After.step {shared : Shared V} (h : After make lead cell past shared) (turn : Bool) :
    After make lead cell (past ++ [turn]) (shared.step make lead turn) := by
  have hne : (!turn) ≠ turn := by cases turn <;> simp
  have htaken := h.taken turn
  by_cases hreads : past.count turn = lead
  · rw [Shared.step_reads (htaken.trans hreads)]
    apply h.snoc rfl
    · exact Function.update_of_ne hne _ _
    · intro _
      exact (Function.update_self ..).trans (h.cell_eq hreads)
    · intro hlater
      omega
    · rw [if_neg (by omega)]
    · rw [if_neg (by omega)]
  by_cases hputs : past.count turn = lead + 1
  · have hmade : make turn (shared.held turn) =
        madeBy make lead cell (past ++ [turn]) turn := by
      rw [h.read turn hputs, madeBy_snoc hreads, madeBy]
    rw [Shared.step_puts (htaken.trans hputs)]
    apply h.snoc rfl
    · exact Function.update_of_ne hne _ _
    · intro hnow
      exact absurd hnow hreads
    · intro _
      exact (Function.update_self ..).trans hmade
    · rw [if_pos hputs, hmade]
    · rw [if_neg (by omega)]
  have hmade (hlater : lead + 1 ≤ past.count turn) : shared.held turn =
      madeBy make lead cell (past ++ [turn]) turn := by
    rw [h.made turn (by omega), madeBy_snoc hreads]
  by_cases hpublishes : past.count turn = lead + 2
  · rw [Shared.step_publishes (htaken.trans hpublishes)]
    apply h.snoc rfl
    · rfl
    · intro hnow
      exact absurd hnow hreads
    · exact hmade
    · rw [if_neg hputs]
    · rw [if_pos hpublishes, hmade (by omega)]
  · rw [Shared.step_passes (htaken ▸ hreads) (htaken ▸ hputs) (htaken ▸ hpublishes)]
    apply h.snoc rfl
    · rfl
    · intro hnow
      exact absurd hnow hreads
    · exact hmade
    · rw [if_neg hputs]
    · rw [if_neg hpublishes]

end Snoc

variable (make : Bool → V → V) (lead : Nat) (cell : V) (published : Option V)

theorem after_start : After make lead cell [] (Shared.start cell published) where
  taken _ := rfl
  read _ h := by simp at h
  made _ h := by simp at h
  untouched _ := rfl
  put _ h := by simp [Last] at h
  publish _ h := by simp [Last] at h

theorem after_run (schedule : List Bool) :
    After make lead cell schedule
      (Run.final (Shared.step make lead) (Shared.start cell published) schedule) := by
  induction schedule using List.reverseRecOn with
  | nil => exact after_start make lead cell published
  | append_singleton past turn ih =>
      rw [Run.final_append]
      exact ih.step turn

/-- Once both have published: the cell holds what the later put made, of what the earlier
one made if it read after that put, and what was published last is the same value if the
publications came in the order of the puts. -/
theorem outcome {schedule : List Bool} {shared : Shared V}
    (h : After make lead cell schedule shared)
    (hdone : ∀ thread, lead + 3 ≤ schedule.count thread) {first : Bool}
    (hfirst : Precedes schedule first (lead + 2) (!first) (lead + 2)) :
    shared.cell = make (!first)
        (if Precedes schedule first (lead + 2) (!first) (lead + 1) then make first cell
          else cell) ∧
      shared.published =
        some (if Precedes schedule first (lead + 3) (!first) (lead + 3) then shared.cell
          else make first cell) := by
  have hput : ∀ thread, lead + 2 ≤ schedule.count thread := fun thread =>
    Nat.le_trans (by omega) (hdone thread)
  have hcell : shared.cell = madeBy make lead cell schedule (!first) := by
    apply h.put
    refine ⟨hput _, fun _ => ?_⟩
    rw [Bool.not_not]
    exact hfirst
  refine ⟨?_, ?_⟩
  · rw [hcell, madeBy, readBy]
    simp only [Bool.not_not]
  · split
    · rename_i hordered
      rw [hcell]
      apply h.publish
      refine ⟨hdone _, fun _ => ?_⟩
      rw [Bool.not_not]
      exact hordered
    · rename_i hunordered
      have hlast : Precedes schedule (!first) (lead + 3) first (lead + 3) :=
        (precedes_total schedule first _ (!first) _).resolve_left hunordered
      have hunseen : ¬ Precedes schedule (!first) (lead + 2) first (lead + 1) :=
        hfirst.not_before (Nat.le_trans (by omega) (hput first)) (by omega)
      rw [h.publish first ⟨hdone first, fun _ => hlast⟩, madeBy, readBy, if_neg hunseen]

end Machine

end Overlap
