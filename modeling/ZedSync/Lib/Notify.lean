import ZedSync.Lib.Run
import Mathlib.Data.List.Range

/-!
A value whose changes are announced to listeners, one after another, inside the
change itself. A listener that runs may change the value again: a new pass over
the listeners then begins and ends before the old one goes on. The passes are a
stack, and what a listener is still owed is on it.
-/

namespace Notify

/-- A pass over the listeners for one commit: one of them is running, these are
still to be called. -/
structure Loop (κ : Type) where
  pending : List κ
  commit : Nat
  deriving DecidableEq, Repr

/-- The value with its subscriptions, the passes under way (innermost first),
and the history: every commit, and every call of a listener with the commit it
is called for. -/
structure Notifier (σ κ : Type) where
  value : σ
  listeners : List κ
  handles : List (κ × Bool)
  loops : List (Loop κ)
  commits : List σ
  log : List (κ × Nat)
  deriving DecidableEq, Repr

/-- What happens next: the running listener, or the outside when none runs, asks
for a change, subscribes or unsubscribes; or the running listener is done. -/
inductive Event (ε κ : Type) where
  | dispatch (event : ε)
  | returns
  | subscribe (listener : κ)
  | unsubscribe (handle : Nat)
  deriving DecidableEq, Repr

/-- How the value changes, if it does, and where a new listener goes. -/
structure Machine (σ ε κ : Type) where
  reduce : σ → ε → Option σ
  add : List κ → κ → List κ

namespace Notifier

variable {σ ε κ : Type}

def initial (value : σ) : Notifier σ κ :=
  { value := value, listeners := [], handles := [], loops := [], commits := [], log := [] }

/-- Call the next listener of a pass, or end the pass. -/
def call (notifier : Notifier σ κ) (pending : List κ) (commit : Nat)
    (outer : List (Loop κ)) : Notifier σ κ :=
  match pending with
  | [] => { notifier with loops := outer }
  | listener :: later =>
      { notifier with
        loops := { pending := later, commit := commit } :: outer
        log := notifier.log ++ [(listener, commit)] }

/-- Change the value, then begin a pass over a copy of the listeners. -/
def commit (notifier : Notifier σ κ) (next : σ) : Notifier σ κ :=
  { notifier with value := next, commits := notifier.commits ++ [next] }.call
    notifier.listeners notifier.commits.length notifier.loops

/-- The running listener is done, normally or not. -/
def returns (notifier : Notifier σ κ) : Notifier σ κ :=
  match notifier.loops with
  | [] => notifier
  | loop :: outer => notifier.call loop.pending loop.commit outer

/-- A pass is for a commit that was made, and the value is the last commit. -/
structure Coherent (notifier : Notifier σ κ) : Prop where
  made : ∀ loop ∈ notifier.loops, loop.commit < notifier.commits.length
  current : ∀ value ∈ notifier.commits.getLast?, value = notifier.value

section Call

variable (notifier : Notifier σ κ)

theorem call_kept (pending : List κ) (commit : Nat) (outer : List (Loop κ)) :
    (notifier.call pending commit outer).commits = notifier.commits ∧
      (notifier.call pending commit outer).value = notifier.value ∧
        notifier.log.length ≤ (notifier.call pending commit outer).log.length := by
  cases pending with
  | nil => exact ⟨rfl, rfl, Nat.le_refl _⟩
  | cons next later => exact ⟨rfl, rfl, by simp [call]⟩

theorem mem_loops_call {pending : List κ} {commit : Nat} {outer : List (Loop κ)} {loop : Loop κ}
    (hmem : loop ∈ (notifier.call pending commit outer).loops) :
    loop.commit = commit ∨ loop ∈ outer := by
  cases pending with
  | nil => exact Or.inr hmem
  | cons next later =>
      rcases List.mem_cons.mp hmem with rfl | hold
      · exact Or.inl rfl
      · exact Or.inr hold

theorem coherent_call {notifier : Notifier σ κ} {pending : List κ} {commit : Nat}
    {outer : List (Loop κ)}
    (hcurrent : ∀ value ∈ notifier.commits.getLast?, value = notifier.value)
    (hcommit : commit < notifier.commits.length)
    (houter : ∀ loop ∈ outer, loop.commit < notifier.commits.length) :
    (notifier.call pending commit outer).Coherent := by
  obtain ⟨hcommits, hvalue, -⟩ := call_kept notifier pending commit outer
  constructor
  · intro loop hmem
    rw [hcommits]
    rcases mem_loops_call notifier hmem with heq | hold
    · exact heq ▸ hcommit
    · exact houter loop hold
  · rw [hcommits, hvalue]
    exact hcurrent

/-- What a run keeps, seen from a state with so many calls and commits. -/
structure Since (since base : Nat) (notifier : Notifier σ κ) : Prop extends
    notifier.Coherent where
  calls : since ≤ notifier.log.length
  commits : base ≤ notifier.commits.length

theorem since_call {since base : Nat} {pending : List κ} {commit : Nat} {outer : List (Loop κ)}
    (hcalls : since ≤ notifier.log.length) (hbase : base ≤ notifier.commits.length)
    (hcoherent : (notifier.call pending commit outer).Coherent) :
    (notifier.call pending commit outer).Since since base := by
  obtain ⟨hcommits, -, hlog⟩ := call_kept notifier pending commit outer
  exact { hcoherent with calls := hcalls.trans hlog, commits := hcommits ▸ hbase }

theorem since_returns {since base : Nat} {notifier : Notifier σ κ}
    (h : notifier.Since since base) : notifier.returns.Since since base := by
  unfold returns
  split
  · exact h
  · rename_i loop outer hloops
    refine since_call _ h.calls h.commits (coherent_call h.current ?_ ?_)
    · exact h.made loop (by simp [hloops])
    · intro other hmem
      exact h.made other (by simp [hloops, hmem])

theorem since_commit {since base : Nat} {notifier : Notifier σ κ}
    (h : notifier.Since since base) (next : σ) : (notifier.commit next).Since since base := by
  have hlength : (notifier.commits ++ [next]).length = notifier.commits.length + 1 := by simp
  refine since_call _ h.calls ?_ (coherent_call ?_ ?_ ?_)
  · exact h.commits.trans (by simp)
  · simp
  · exact hlength ▸ Nat.lt_succ_self _
  · intro loop hmem
    exact hlength ▸ Nat.lt_succ_of_lt (h.made loop hmem)

end Call

variable [DecidableEq κ]

def unsubscribe (notifier : Notifier σ κ) (handle : Nat) : Notifier σ κ :=
  match notifier.handles[handle]? with
  | some (listener, true) =>
      { notifier with
        listeners := notifier.listeners.erase listener
        handles := notifier.handles.set handle (listener, false) }
  | _ => notifier

def step (machine : Machine σ ε κ) (notifier : Notifier σ κ) : Event ε κ → Notifier σ κ
  | .dispatch event =>
      match machine.reduce notifier.value event with
      | some next => notifier.commit next
      | none => notifier
  | .returns => notifier.returns
  | .subscribe listener =>
      { notifier with
        listeners := machine.add notifier.listeners listener
        handles := notifier.handles ++ [(listener, true)] }
  | .unsubscribe handle => notifier.unsubscribe handle

/-- The event changes the value. -/
def Applies (machine : Machine σ ε κ) (notifier : Notifier σ κ) : Event ε κ → Prop
  | .dispatch event => (machine.reduce notifier.value event).isSome
  | .returns | .subscribe _ | .unsubscribe _ => False

instance (machine : Machine σ ε κ) (notifier : Notifier σ κ) (event : Event ε κ) :
    Decidable (notifier.Applies machine event) := by
  unfold Applies
  split <;> infer_instance

/-- The commits that the listener is still to be called for, in the order of the
calls. -/
def owed (listener : κ) (notifier : Notifier σ κ) : List Nat :=
  notifier.loops.flatMap fun loop => List.replicate (loop.pending.count listener) loop.commit

/-- The commits that the listener was called for, from an entry of the log on. -/
def received (listener : κ) (since : Nat) (notifier : Notifier σ κ) : List Nat :=
  ((notifier.log.drop since).filter fun entry => entry.1 = listener).map Prod.snd

/-- The calls of the listener when no more changes come: those made, then those owed. -/
def seen (listener : κ) (since : Nat) (notifier : Notifier σ κ) : List Nat :=
  notifier.received listener since ++ notifier.owed listener

/-- Every commit from `base` on, each once and in order. -/
def InOrder (listener : κ) (since base : Nat) (notifier : Notifier σ κ) : Prop :=
  notifier.seen listener since = List.range' base (notifier.commits.length - base)

section Steps

variable {listener : κ} {since : Nat} {notifier : Notifier σ κ}

theorem owed_lt (h : notifier.Coherent) {index : Nat} (hmem : index ∈ notifier.owed listener) :
    index < notifier.commits.length := by
  obtain ⟨loop, hloop, hindex⟩ := List.mem_flatMap.mp hmem
  rw [List.eq_of_mem_replicate hindex]
  exact h.made loop hloop

/-- A pass calls the listener as often as it is among those to be called. -/
theorem seen_call (hsince : since ≤ notifier.log.length) (pending : List κ) (commit : Nat)
    (outer : List (Loop κ)) :
    (notifier.call pending commit outer).seen listener since =
      notifier.received listener since ++
        (List.replicate (pending.count listener) commit ++
          { notifier with loops := outer }.owed listener) := by
  cases pending with
  | nil => rfl
  | cons next later =>
      by_cases hsame : next = listener
      · simp [call, seen, received, owed, List.drop_append_of_le_length hsince, hsame,
          List.replicate_succ]
      · simp [call, seen, received, owed, List.drop_append_of_le_length hsince, hsame]

theorem seen_returns (hsince : since ≤ notifier.log.length) :
    notifier.returns.seen listener since = notifier.seen listener since := by
  unfold returns
  split
  · rfl
  · rename_i loop outer hloops
    rw [seen_call hsince]
    simp [seen, owed, hloops]

/-- A commit is announced to the listener at once, before what it is still owed. -/
theorem seen_commit (hsince : since ≤ notifier.log.length)
    (honce : notifier.listeners.count listener = 1) (next : σ) :
    (notifier.commit next).seen listener since =
      notifier.received listener since ++ notifier.commits.length :: notifier.owed listener := by
  rw [commit, seen_call (by exact hsince), honce]
  rfl

/-- A listener that was called for every commit in order stays so through a commit
exactly when it was owed nothing: what is owed comes after the newer commit. -/
theorem inOrder_commit {base : Nat} (h : notifier.Since since base)
    (honce : notifier.listeners.count listener = 1) (next : σ) :
    (notifier.commit next).InOrder listener since base ↔
      notifier.InOrder listener since base ∧ notifier.owed listener = [] := by
  have hcommits : (notifier.commit next).commits.length = notifier.commits.length + 1 := by
    rw [commit, (call_kept _ _ _ _).1]
    simp
  have hrange : List.range' base (notifier.commits.length + 1 - base) =
      List.range' base (notifier.commits.length - base) ++ [notifier.commits.length] := by
    rw [Nat.sub_add_comm h.commits, List.range'_1_concat, Nat.add_sub_cancel' h.commits]
  rw [InOrder, InOrder, seen_commit h.calls honce, hcommits, hrange, seen]
  rcases List.eq_nil_or_concat (notifier.owed listener) with hnone | ⟨rest, last, howed⟩
  · rw [hnone]
    simp
  · have hlast : last < notifier.commits.length := by
      have hmem : last ∈ notifier.owed listener := by simp [howed]
      exact owed_lt h.toCoherent hmem
    rw [howed, List.concat_eq_append]
    constructor
    · intro heq
      have hends := congrArg List.getLast? heq
      rw [← List.cons_append, ← List.append_assoc, List.getLast?_concat,
        List.getLast?_concat] at hends
      exact absurd (Option.some.inj hends) (Nat.ne_of_lt hlast)
    · rintro ⟨-, hnil⟩
      simp at hnil

end Steps

section Runs

variable (machine : Machine σ ε κ) (listener : κ)

theorem step_since {since base : Nat} {notifier : Notifier σ κ} (h : notifier.Since since base)
    (event : Event ε κ) : (notifier.step machine event).Since since base := by
  cases event with
  | dispatch event =>
      simp only [step]
      split
      · exact since_commit h _
      · exact h
  | returns => exact since_returns h
  | subscribe other => exact { h with }
  | unsubscribe handle =>
      simp only [step, unsubscribe]
      split
      · exact { h with }
      · exact h

/-- One event keeps the order exactly when it commits nothing while the listener is
still owed an earlier commit. -/
theorem inOrder_step {since base : Nat} {notifier : Notifier σ κ}
    (h : notifier.Since since base) (honce : notifier.listeners.count listener = 1)
    (event : Event ε κ) :
    (notifier.step machine event).InOrder listener since base ↔
      notifier.InOrder listener since base ∧
        (notifier.Applies machine event → notifier.owed listener = []) := by
  cases event with
  | dispatch event =>
      simp only [step, Applies]
      cases hreduce : machine.reduce notifier.value event with
      | some next =>
          rw [inOrder_commit h honce]
          simp
      | none => simp
  | returns =>
      have hcommits : notifier.returns.commits = notifier.commits := by
        unfold returns
        split
        · rfl
        · exact (call_kept _ _ _ _).1
      simp only [step, Applies, InOrder, seen_returns h.calls, hcommits, false_imp_iff, and_true]
  | subscribe other => simp [step, Applies, InOrder, seen, received, owed]
  | unsubscribe handle =>
      simp only [step, Applies, unsubscribe, false_imp_iff, and_true]
      split
      · rfl
      · rfl

theorem coherent_final (value : σ) (events : List (Event ε κ)) :
    (Run.final (step machine) (initial value) events).Coherent := by
  have hinit : (initial value : Notifier σ κ).Since 0 0 :=
    { made := fun _ hmem => absurd hmem List.not_mem_nil
      current := fun _ hlast => absurd hlast (by simp [initial])
      calls := Nat.zero_le _
      commits := Nat.zero_le _ }
  have hstep : ∀ (notifier : Notifier σ κ) (event : Event ε κ), notifier.Since 0 0 →
      (notifier.step machine event).Since 0 0 := fun _ event h => step_since machine h event
  exact (Run.preserved hstep events hinit).toCoherent

/-- Nothing is owed when no pass is under way. -/
theorem seen_of_quiet {since : Nat} {notifier : Notifier σ κ} (h : notifier.loops = []) :
    notifier.seen listener since = notifier.received listener since := by
  simp [seen, owed, h]

/-- A listener that stays subscribed through a run was called, when no pass is left, for
every commit of the run in order and once each, exactly when it was owed nothing at
the start and at every commit. -/
theorem received_eq_range_iff {start : Notifier σ κ} (h : start.Coherent)
    {events : List (Event ε κ)}
    (hstays : Run.Along (step machine)
      (fun notifier _ => notifier.listeners.count listener = 1) start events)
    (hquiet : (Run.final (step machine) start events).loops = []) :
    (Run.final (step machine) start events).received listener start.log.length =
        List.range' start.commits.length
          ((Run.final (step machine) start events).commits.length - start.commits.length) ↔
      start.owed listener = [] ∧
        Run.Along (step machine)
          (fun notifier event => notifier.Applies machine event → notifier.owed listener = [])
          start events := by
  have hinit : start.Since start.log.length start.commits.length :=
    { h with calls := Nat.le_refl _, commits := Nat.le_refl _ }
  have hgood : start.InOrder listener start.log.length start.commits.length ↔
      start.owed listener = [] := by
    simp [InOrder, seen, received]
  have hstep : ∀ (notifier : Notifier σ κ) (event : Event ε κ),
      notifier.Since start.log.length start.commits.length →
        notifier.listeners.count listener = 1 →
          ((notifier.step machine event).InOrder listener start.log.length
              start.commits.length ↔
            notifier.InOrder listener start.log.length start.commits.length ∧
              (notifier.Applies machine event → notifier.owed listener = [])) :=
    fun _ event hsince honce => inOrder_step machine listener hsince honce event
  rw [← seen_of_quiet listener hquiet, ← hgood]
  exact Run.final_iff_of_step (fun _ event hsince => step_since machine hsince event) hstep
    hinit hstays

/-- The last of the commits in order is the one that made the current value. -/
theorem latest_of_range {notifier : Notifier σ κ} (h : notifier.Coherent) {since base : Nat}
    (horder : notifier.received listener since =
      List.range' base (notifier.commits.length - base)) :
    ∀ index ∈ (notifier.received listener since).getLast?,
      notifier.commits[index]? = some notifier.value := by
  intro index hlast
  rw [horder, List.getLast?_range'] at hlast
  split at hlast
  · simp at hlast
  · rename_i hsome
    have hindex : index = notifier.commits.length - 1 := by
      rw [← Option.some.inj hlast]
      omega
    have hvalue := List.getLast?_eq_getElem? (l := notifier.commits)
    rw [← hindex] at hvalue
    cases hcommit : notifier.commits[index]? with
    | none =>
        rw [List.getElem?_eq_none_iff] at hcommit
        omega
    | some value => exact congrArg some (h.current value (hvalue.trans hcommit))

end Runs

end Notifier

end Notify
