import ZedSync.Js.Fencing

/-!
What a client still does after the promise of `stop` has resolved. Every method asks for
its capability once, at its entry, and `applyChange` asks within a hydration for each
change; from there a call goes on through its awaits. So a call that begins later is
refused, and one that is past its check when `stop` resolves is not held up.
-/

namespace ZedSync.Js

open Async

/-- Store mutations, and sends. -/
def Action.effect : Action → Bool
  | .putRow _ _ _ _ | .removeRow _ _ _ | .enqueue _ | .retire _ | .settleAck _ | .settleEntry _ _
  | .handOff _ | .handOffEntry _ | .fetch _ => true
  | _ => false

/-- The reply that lets a call past its check. -/
def Admits : (action : Action) → action.Reply → Prop
  | .requireCapability _, refusal => refusal = none
  | _, _ => False

/-- No effect is left of the program before another check lets it past. -/
def AtRest (program : Prog session α) : Prop :=
  program.Guarded (fun action : Action => action.effect = true) Admits

/-- A session, leased or not: the startup, and any threads beside it. -/
def syncSession (config : ClientConfig) (options : StartOptions) (threads : List SessionThread)
    (world : World) : Pool session Unit :=
  { world := { world with lease := world.lease.filter fun _ => options.leased }
    threads := startSync config options firstToken ::
      threads.map (SessionThread.program config) }

/-- The action with which a `stop` resolves its promise. -/
def Action.endsStop : Action → Input → World → Bool
  | .dispatch (.stopSucceeded _), _, _ => true
  | .stopBegin, input, world => decide ((world.stopBegin input).1 = .alreadyStopped)
  | _, _, _ => false

theorem Action.endsStop_cases {action : Action} {input : Input} {world : World}
    (h : action.endsStop input world = true) :
    (∃ stopToken, action = .dispatch (.stopSucceeded stopToken)) ∨
      action = .stopBegin ∧ (world.stopBegin input).1 = .alreadyStopped := by
  unfold Action.endsStop at h
  split at h
  · exact Or.inl ⟨_, rfl⟩
  · exact Or.inr ⟨rfl, of_decide_eq_true h⟩
  · cases h

/-- On this turn the promise of `stop` resolves. -/
def Resolves (pool : Pool session Unit) (turn : Pool.Turn session) : Prop :=
  ∃ action next, pool.threads[turn.1]? = some (.call action next) ∧
    action.endsStop turn.2 pool.world = true

theorem not_resolves_iff {pool : Pool session Unit} {turn : Pool.Turn session} :
    ¬ Resolves pool turn ↔
      pool.Takes
        (fun (action : Action) input world => ¬ action.endsStop input world = true) turn :=
  ⟨fun h action next hthread hends => h ⟨action, next, hthread, hends⟩,
    fun h ⟨action, next, hthread, hends⟩ => h action next hthread hends⟩

instance (pool : Pool session Unit) (turn : Pool.Turn session) : Decidable (Resolves pool turn) :=
  decidable_of_iff
    (¬ pool.Takes (fun (action : Action) input world => ¬ action.endsStop input world = true) turn)
    (not_iff_comm.mp not_resolves_iff)

/-- Once the promise of `stop` has resolved, nothing is mutated in the store or sent. -/
def StopIsFinal (pool : Pool session Unit) (schedule : List (Pool.Turn session)) : Prop :=
  ∀ before turn after, schedule = before ++ turn :: after → Resolves (pool.run before) turn →
    (pool.run (before ++ [turn])).Heeds (fun (action : Action) _ _ => ¬ action.effect = true) after

/-- If the promise of `stop` resolves on this turn, no call is past its check with an effect
ahead of it. -/
def StopsAtRest (pool : Pool session Unit) (turn : Pool.Turn session) : Prop :=
  Resolves pool turn → ∀ program ∈ pool.threads, AtRest program

theorem requireCapability_atRest (capability : Capability) (operation : String)
    (body : Prog session (Outcome α)) : AtRest (requireCapability capability operation body) := by
  refine ⟨by simp [Action.effect], fun refusal => ?_⟩
  cases refusal with
  | none => exact Or.inl rfl
  | some phase => exact Or.inr trivial

theorem hydrate_atRest (config : ClientConfig) (changes : List ChangeEvent) :
    AtRest (hydrate config changes) := by
  induction changes with
  | nil => trivial
  | cons change rest ih =>
      unfold hydrate
      refine Prog.Guarded.bind (requireCapability_atRest _ _ _) fun reply => ?_
      cases reply with
      | error error => trivial
      | ok outcome => exact ih

/-- A call that has not begun is at rest, whichever it is. -/
theorem call_atRest (config : ClientConfig) (call : Call) :
    AtRest ((SessionThread.call call).program config) := by
  have hcall : AtRest (call.program config) := by
    cases call with
    | applyChange incoming =>
        exact Prog.Guarded.bind (requireCapability_atRest _ _ _) fun _ => trivial
    | hydrate changes => exact Prog.Guarded.bind (hydrate_atRest config changes) fun _ => trivial
    | write table id row options =>
        exact Prog.Guarded.bind (requireCapability_atRest _ _ _) fun _ => trivial
    | flushQueue policy =>
        exact Prog.Guarded.bind (requireCapability_atRest _ _ _) fun _ => trivial
    | newClient newProcess => exact ⟨by simp [Action.effect], fun _ => Or.inr trivial⟩
  exact Prog.Guarded.bind hcall fun _ => trivial

namespace StopSession

/-- The token of the first stop of a machine that was started once. -/
def stopToken : Nat := 2

/-- Started and not yet stopped. -/
def Opened (snapshot : AppLifecycleSnapshot) : Prop :=
  snapshot.generation = firstToken ∧ snapshot.phase ≠ .stopped ∧ snapshot.phase ≠ .stopping

def Stopping (snapshot : AppLifecycleSnapshot) : Prop :=
  snapshot.phase = .stopping ∧ snapshot.generation = stopToken ∧
    snapshot.activeToken = some stopToken

def Stopped (snapshot : AppLifecycleSnapshot) : Prop := snapshot.phase = .stopped

/-- An event of the session's own start: it carries its token, and ends no stop. -/
def OfStart (event : LifecycleEvent) : Prop :=
  event.token = some firstToken ∧ (∀ token, event ≠ .stopSucceeded token) ∧
    ∀ token, event ≠ .stopFailed token

theorem opened_dispatch {snapshot : AppLifecycleSnapshot} {event : LifecycleEvent}
    (h : Opened snapshot) (hevent : OfStart event) : Opened (dispatch snapshot event).1 := by
  have hkeeps : ∀ token (body : AppLifecycleSnapshot × TransitionOutcome), Opened body.1 →
      Opened (withToken snapshot token body).1 := by
    intro token body hbody
    unfold withToken
    split
    · exact h
    · exact h
    · exact hbody
  have hfailed : ∀ failure, Opened (failed snapshot failure) :=
    fun failure => ⟨h.1, by simp [failed], by simp [failed]⟩
  have hreduce : Opened (reduce snapshot event).1 := by
    obtain ⟨htoken, hsucceeds, hfails⟩ := hevent
    cases event with
    | startRequested | stopRequested | reconcileRequested => cases htoken
    | stopSucceeded token => exact absurd rfl (hsucceeds token)
    | stopFailed token => exact absurd rfl (hfails token)
    | startSucceeded token =>
        apply hkeeps
        split
        · exact h
        · refine ⟨h.1, ?_, ?_⟩ <;> dsimp only <;> split <;> simp
    | startFailed token | runtimeFailed token =>
        apply hkeeps
        split
        · exact h
        · exact hfailed _
    | connectivityChanged token online =>
        apply hkeeps
        split
        · exact h
        · have hphase : (if snapshot.phase = .starting then AppPhase.starting
              else if online then .online else .offline) ≠ .stopped ∧
              (if snapshot.phase = .starting then AppPhase.starting
              else if online then .online else .offline) ≠ .stopping := by
            split_ifs <;> simp
          dsimp only
          generalize (if snapshot.phase = .starting then AppPhase.starting
            else if online then .online else .offline) = phase at hphase ⊢
          split
          · exact h
          · exact ⟨h.1, hphase⟩
  unfold dispatch
  dsimp only
  split
  · split
    · exact hreduce
    · exact h
  · exact h

/-- Under the token of the start nothing moves a stop. -/
theorem stopping_dispatch {snapshot : AppLifecycleSnapshot} {event : LifecycleEvent}
    (h : Stopping snapshot) (hevent : OfStart event) : (dispatch snapshot event).1 = snapshot := by
  obtain ⟨hphase, hgeneration, hactive⟩ := h
  have hstale : tokenRelation snapshot firstToken = .stale := by
    simp [tokenRelation, hactive, hgeneration, firstToken, stopToken, maxSafeInteger]
  have hreduce : reduce snapshot event = (snapshot, .stale) := by
    obtain ⟨htoken, hsucceeds, hfails⟩ := hevent
    cases event with
    | startRequested | stopRequested | reconcileRequested => cases htoken
    | stopSucceeded token => exact absurd rfl (hsucceeds token)
    | stopFailed token => exact absurd rfl (hfails token)
    | startSucceeded token | startFailed token | connectivityChanged token | runtimeFailed token =>
        obtain rfl := Option.some.inj htoken
        simp [reduce, withToken, hstale]
  simp [dispatch, hreduce]

theorem stopping_succeeds {snapshot : AppLifecycleSnapshot} (h : Stopping snapshot) :
    Stopped (dispatch snapshot (.stopSucceeded stopToken)).1 := by
  obtain ⟨hphase, hgeneration, hactive⟩ := h
  have hcurrent : tokenRelation snapshot stopToken = .current := by
    simp [tokenRelation, hactive, stopToken, maxSafeInteger]
  have hreduce : reduce snapshot (.stopSucceeded stopToken) =
      (initialSnapshot stopToken, .applied) := by
    simp [reduce, withToken, hcurrent, hphase, hgeneration]
  have hvalid : lifecycleInvariant (initialSnapshot stopToken) = true := by decide
  simp only [dispatch, hreduce, hvalid, if_true]
  rfl

theorem stop_accepted {snapshot : AppLifecycleSnapshot} (h : Opened snapshot) :
    Stopping (dispatch snapshot (World.stopEvent snapshot.phase)).1 ∧
      (dispatch snapshot (World.stopEvent snapshot.phase)).2 = some .applied := by
  obtain ⟨hgeneration, hstopped, hstopping⟩ := h
  have hbegins : ∀ operation, operation = .stop ∨ operation = .reconcile →
      reduce snapshot (World.stopEvent snapshot.phase) = beginStop snapshot operation →
      Stopping (dispatch snapshot (World.stopEvent snapshot.phase)).1 ∧
        (dispatch snapshot (World.stopEvent snapshot.phase)).2 = some .applied := by
    intro operation hoperation hreduce
    have hbegin : beginStop snapshot operation =
        ({ phase := .stopping, operation := operation, generation := stopToken,
           activeToken := some stopToken, desiredRunning := false, online := false,
           failure := none }, .applied) := by
      simp [beginStop, hgeneration, firstToken, stopToken, maxSafeInteger]
    rcases hoperation with rfl | rfl
    · simp [dispatch, hreduce, hbegin, Stopping, stopToken, lifecycleInvariant, coherent,
        maxSafeInteger]
    · simp [dispatch, hreduce, hbegin, Stopping, stopToken, lifecycleInvariant, coherent,
        maxSafeInteger]
  cases hphase : snapshot.phase with
  | stopped => exact absurd hphase hstopped
  | stopping => exact absurd hphase hstopping
  | failed =>
      rw [← hphase]
      exact hbegins .reconcile (Or.inr rfl) (by simp [World.stopEvent, hphase, reduce])
  | starting | online | offline =>
      rw [← hphase]
      exact hbegins .stop (Or.inl rfl) (by simp [World.stopEvent, hphase, reduce])

/-- Only a start request leaves the stopped phase. -/
theorem stopped_dispatch {snapshot : AppLifecycleSnapshot} {event : LifecycleEvent}
    (h : Stopped snapshot) (hevent : event ≠ .startRequested) :
    (dispatch snapshot event).1 = snapshot := by
  have hkept : ∀ token body, (body : AppLifecycleSnapshot × TransitionOutcome) =
      (snapshot, .rejected) → (withToken snapshot token body).1 = snapshot := by
    rintro token body rfl
    unfold withToken
    split <;> rfl
  have hphase : snapshot.phase = .stopped := h
  have hreduce : (reduce snapshot event).1 = snapshot := by
    cases event with
    | startRequested => exact absurd rfl hevent
    | stopRequested | reconcileRequested => simp [reduce, hphase]
    | startSucceeded token | startFailed token | connectivityChanged token | runtimeFailed token
    | stopSucceeded token | stopFailed token =>
        exact hkept token _ (by simp [hphase])
  unfold dispatch
  dsimp only
  split
  · split
    · exact hreduce
    · rfl
  · rfl

/-- What a thread beside `stop` does to the lifecycle. -/
def Calm : Action → Prop
  | .dispatch event => OfStart event
  | .afterRenew _ sessionToken => sessionToken = firstToken
  | .stopBegin => False
  | _ => True

/-- The rest of a `stop` that has begun. -/
inductive Closing : Prog session Unit → Prop
  | releasing : Closing (do
      act .settled
      let _ ← act (.dispatch (.stopSucceeded stopToken)))
  | released : Closing (do let _ ← act (.dispatch (.stopSucceeded stopToken)))
  | failing : Closing (do let _ ← act (.dispatch (.stopFailed stopToken)))

theorem Closing.not_calm {program : Prog session Unit} (h : Closing program) :
    ¬ program.Only Calm := by
  cases h with
  | releasing =>
      rintro ⟨-, hnext⟩
      exact (hnext ()).1.2.1 stopToken rfl
  | released =>
      rintro ⟨hdispatch, -⟩
      exact hdispatch.2.1 stopToken rfl
  | failing =>
      rintro ⟨hdispatch, -⟩
      exact hdispatch.2.2 stopToken rfl

theorem dispatch_lifecycle (world : World) (event : LifecycleEvent) :
    (world.dispatch event).2.lifecycle =
        world.lifecycle.map (fun snapshot => (dispatch snapshot event).1) ∧
      (world.dispatch event).2.stopCalled = world.stopCalled := by
  unfold World.dispatch
  split
  · rename_i hnone
    exact ⟨by simp [hnone], rfl⟩
  · rename_i snapshot hsome
    exact ⟨by simp [hsome], rfl⟩

/-- The event an action may dispatch. -/
def Dispatches : Action → LifecycleEvent → Prop
  | .dispatch sent, event => event = sent
  | .afterRenew _ sessionToken, event => event = .runtimeFailed sessionToken
  | .stopBegin, event => event = .stopRequested ∨ event = .reconcileRequested
  | _, _ => False

/-- An action moves the lifecycle by the event it dispatches, or not at all. -/
theorem perform_lifecycle (action : Action) (input : Input) (world : World) :
    (action ≠ .stopBegin → (perform action input world).2.stopCalled = world.stopCalled) ∧
      ((perform action input world).2.lifecycle = world.lifecycle ∨
        ∃ event, Dispatches action event ∧ (perform action input world).2.lifecycle =
          world.lifecycle.map fun snapshot => (dispatch snapshot event).1) := by
  cases action with
  | dispatch event =>
      obtain ⟨hlifecycle, hstop⟩ := dispatch_lifecycle world event
      exact ⟨fun _ => hstop, Or.inr ⟨event, rfl, hlifecycle⟩⟩
  | lock =>
      simp only [perform]
      cases input.grant <;> exact ⟨fun _ => rfl, Or.inl rfl⟩
  | afterRenew handle sessionToken =>
      simp only [perform]
      rcases Fencing.afterRenew_cases world handle sessionToken input with
        hsame | ⟨lease, failures, hlease, hsame⟩ | hlost
      · rw [hsame]
        exact ⟨fun _ => rfl, Or.inl rfl⟩
      · rw [hsame]
        exact ⟨fun _ => rfl, Or.inl rfl⟩
      · rw [hlost]
        unfold World.markLost
        dsimp only
        split
        · obtain ⟨hlifecycle, hstop⟩ :=
            dispatch_lifecycle (world.setHandle none 0) (.runtimeFailed sessionToken)
          exact ⟨fun _ => hstop, Or.inr ⟨_, rfl, hlifecycle⟩⟩
        · exact ⟨fun _ => rfl, Or.inl rfl⟩
  | stopBegin =>
      refine ⟨fun hne => absurd rfl hne, ?_⟩
      simp only [perform]
      rcases Fencing.stopBegin_cases world input with
        hsame | ⟨snapshot, stopping, hsnapshot, rfl, hafter⟩
      · exact Or.inl (by rw [hsame])
      · refine Or.inr ⟨World.stopEvent snapshot.phase, Fencing.stopEvent_cases _, ?_⟩
        rw [← (dispatch_lifecycle world _).1]
        rcases hafter with hsame | ⟨-, base, rfl | rfl, hsame⟩
        · rw [hsame]
        · rw [hsame]
        · rw [hsame]
          rfl
  | _ => exact ⟨fun _ => rfl, Or.inl rfl⟩

theorem calm_dispatches {action : Action} {event : LifecycleEvent} (hcalm : Calm action)
    (h : Dispatches action event) : OfStart event := by
  cases action with
  | dispatch sent =>
      obtain rfl : event = sent := h
      exact hcalm
  | afterRenew handle sessionToken =>
      obtain rfl : sessionToken = firstToken := hcalm
      obtain rfl : event = .runtimeFailed firstToken := h
      exact ⟨rfl, by simp, by simp⟩
  | stopBegin => exact hcalm.elim
  | _ => exact h.elim

theorem calm_stopCalled {action : Action} (hcalm : Calm action) (input : Input) (world : World) :
    (perform action input world).2.stopCalled = world.stopCalled := by
  apply (perform_lifecycle action input world).1
  rintro rfl
  exact hcalm

/-- What the events of the start keep, a calm action keeps. -/
theorem phased_calm {P : AppLifecycleSnapshot → Prop}
    (hP : ∀ snapshot event, P snapshot → OfStart event → P (dispatch snapshot event).1)
    {action : Action} (hcalm : Calm action) (input : Input) {world : World}
    (h : Fencing.Phased P world) : Fencing.Phased P (perform action input world).2 := by
  obtain ⟨snapshot, hsnapshot, hholds⟩ := h
  rcases (perform_lifecycle action input world).2 with hsame | ⟨event, hevent, hmoved⟩
  · exact ⟨snapshot, hsame.trans hsnapshot, hholds⟩
  · exact ⟨_, hmoved.trans (by rw [hsnapshot]; rfl),
      hP snapshot event hholds (calm_dispatches hcalm hevent)⟩

/-- What `stop` does before its first `await`, in a session that was started: it joins a
`stop` that has begun, or begins. -/
theorem stopBegin_opened {world : World} (h : Fencing.Phased Opened world)
    (hfirst : world.stopCalled = false) (input : Input) :
    (world.stopBegin input).2.stopCalled = true ∧
      Fencing.Phased Stopping (world.stopBegin input).2 ∧
      ((world.stopBegin input).1 = .releasing (some stopToken) ∨
        (world.stopBegin input).1 = .transportsFailed (some stopToken)) := by
  obtain ⟨snapshot, hsnapshot, hopened⟩ := h
  obtain ⟨hstopping, happlied⟩ := stop_accepted hopened
  have hactive := hstopping.2.2
  unfold World.stopBegin
  simp only [hsnapshot, hfirst, World.dispatch, happlied, hactive, Option.some.injEq, reduceCtorEq,
    false_and, if_false, ne_eq, not_true, Option.bind_some, Bool.false_eq_true]
  split
  · exact ⟨rfl, ⟨_, rfl, hstopping⟩, Or.inl rfl⟩
  · exact ⟨rfl, ⟨_, rfl, hstopping⟩, Or.inr rfl⟩

/-- The session in any state: while `stop` was not called it is open. Once it was called at
most one thread is closing, under the token of the stop. -/
structure Inv (pool : Pool session Unit) : Prop where
  programs : ∀ program ∈ pool.threads, program.Only Calm ∨ program = stop ∨ Closing program
  opened : pool.world.stopCalled = false → Fencing.Phased Opened pool.world
  started : Fencing.Phased (fun _ => True) pool.world
  closing : ∀ (i : Nat) (program : Prog session Unit), pool.threads[i]? = some program →
    Closing program →
    pool.world.stopCalled = true ∧ Fencing.Phased Stopping pool.world ∧
      ∀ (j : Nat) (other : Prog session Unit),
        pool.threads[j]? = some other → Closing other → j = i

section Turn

variable {pool : Pool session Unit} {i : Nat} {program moved : Prog session Unit} {after : World}

theorem Inv.programs_set (h : Inv pool)
    (hmoved : moved.Only Calm ∨ moved = stop ∨ Closing moved) :
    ∀ other ∈ pool.threads.set i moved, other.Only Calm ∨ other = stop ∨ Closing other := by
  intro other hother
  rcases List.mem_or_eq_of_mem_set hother with hbefore | rfl
  · exact h.programs other hbefore
  · exact hmoved

/-- A turn that neither begins nor ends a stop, on a thread that closes nothing. -/
theorem Inv.aside (h : Inv pool) (hthread : pool.threads[i]? = some program)
    (hmoved : moved.Only Calm) (hcalled : after.stopCalled = pool.world.stopCalled)
    (hopened : Fencing.Phased Opened pool.world → Fencing.Phased Opened after)
    (hstarted : Fencing.Phased (fun _ => True) after)
    (hstopping : Fencing.Phased Stopping pool.world → Fencing.Phased Stopping after) :
    Inv { world := after, threads := pool.threads.set i moved } where
  programs := h.programs_set (Or.inl hmoved)
  opened := fun hfirst => hopened (h.opened (hcalled ▸ hfirst))
  started := hstarted
  closing := by
    have hothers : ∀ (j : Nat) (other : Prog session Unit),
        (pool.threads.set i moved)[j]? = some other → Closing other →
        pool.threads[j]? = some other := by
      intro j other hother hotherClosing
      rcases Pool.getElem?_set_some hthread hother with ⟨-, rfl⟩ | ⟨-, hsame⟩
      · exact absurd hmoved hotherClosing.not_calm
      · exact hsame
    intro j other hother hotherClosing
    obtain ⟨hstopped, hbefore, honce⟩ :=
      h.closing j other (hothers j other hother hotherClosing) hotherClosing
    refine ⟨hcalled.trans hstopped, hstopping hbefore, ?_⟩
    intro k third hthird hthirdClosing
    exact honce k third (hothers k third hthird hthirdClosing) hthirdClosing

/-- A turn of a thread beside `stop`. -/
theorem Inv.calm (h : Inv pool) {action : Action} {next : action.Reply → Prog session Unit}
    (hthread : pool.threads[i]? = some (.call action next))
    (honly : (Prog.call action next : Prog session Unit).Only Calm) (input : Input) :
    Inv { world := (perform action input pool.world).2
          threads := pool.threads.set i (next (perform action input pool.world).1) } := by
  obtain ⟨hcalm, hrest⟩ := honly
  apply h.aside hthread (hrest _) (calm_stopCalled hcalm input pool.world)
  · exact phased_calm (fun _ _ => opened_dispatch) hcalm input
  · exact phased_calm (fun _ _ _ _ => trivial) hcalm input h.started
  · apply phased_calm _ hcalm input
    intro snapshot event hholds hevent
    rw [stopping_dispatch hholds hevent]
    exact hholds

/-- A `stop` that joins another leaves everything to it. -/
theorem Inv.joins (h : Inv pool) (hthread : pool.threads[i]? = some program)
    (hmoved : moved.Only Calm) :
    Inv { world := pool.world, threads := pool.threads.set i moved } :=
  h.aside hthread hmoved rfl id h.started id

/-- A turn of a closing thread: it is still closing, or done with the stop. -/
theorem Inv.closes (h : Inv pool) (hthread : pool.threads[i]? = some program)
    (hclosing : Closing program) (hcalled : after.stopCalled = true)
    (hstarted : Fencing.Phased (fun _ => True) after)
    (hmoved : Closing moved ∧ Fencing.Phased Stopping after ∨ moved.Only Calm) :
    Inv { world := after, threads := pool.threads.set i moved } where
  programs := by
    rcases hmoved with ⟨hstill, -⟩ | hdone
    · exact h.programs_set (Or.inr (Or.inr hstill))
    · exact h.programs_set (Or.inl hdone)
  opened := by
    intro hfirst
    rw [hcalled] at hfirst
    cases hfirst
  started := hstarted
  closing := by
    intro j other hother hotherClosing
    have hlone := (h.closing i program hthread hclosing).2.2
    rcases Pool.getElem?_set_some hthread hother with ⟨rfl, rfl⟩ | ⟨hne, hsame⟩
    · rcases hmoved with ⟨-, hstopping⟩ | hdone
      · refine ⟨hcalled, hstopping, ?_⟩
        intro k third hthird hthirdClosing
        rcases Pool.getElem?_set_some hthread hthird with ⟨hself, -⟩ | ⟨-, hthirdSame⟩
        · exact hself
        · exact hlone k third hthirdSame hthirdClosing
      · exact absurd hdone hotherClosing.not_calm
    · exact absurd (hlone j other hsame hotherClosing) hne

/-- The first `stop` begins to close the session. -/
theorem Inv.begins (h : Inv pool) (hthread : pool.threads[i]? = some program)
    (hfirst : pool.world.stopCalled = false) (hcalled : after.stopCalled = true)
    (hstopping : Fencing.Phased Stopping after) (hmoved : Closing moved) :
    Inv { world := after, threads := pool.threads.set i moved } where
  programs := h.programs_set (Or.inr (Or.inr hmoved))
  opened := by
    intro hnever
    rw [hcalled] at hnever
    cases hnever
  started := Fencing.phased_imp (fun _ _ => trivial) hstopping
  closing := by
    have honly : ∀ (j : Nat) (other : Prog session Unit),
        (pool.threads.set i moved)[j]? = some other → Closing other → j = i := by
      intro j other hother hotherClosing
      rcases Pool.getElem?_set_some hthread hother with ⟨hself, -⟩ | ⟨-, hsame⟩
      · exact hself
      · have hbefore := (h.closing j other hsame hotherClosing).1
        rw [hfirst] at hbefore
        cases hbefore
    intro j other hother hotherClosing
    obtain rfl := honly j other hother hotherClosing
    exact ⟨hcalled, hstopping, honly⟩

end Turn

theorem Inv.step {pool : Pool session Unit} (h : Inv pool) (turn : Pool.Turn session) :
    Inv (pool.step turn) := by
  rcases Pool.step_cases pool turn with hidle | ⟨action, next, hthread, hstep⟩
  · rw [hidle]
    exact h
  · rw [hstep]
    rcases h.programs _ (List.mem_of_getElem? hthread) with honly | hstop | hclosing
    · exact h.calm hthread honly turn.2
    · cases hstop
      cases hcalled : pool.world.stopCalled with
      | true =>
          obtain ⟨snapshot, hsnapshot, -⟩ := h.started
          have hjoins : pool.world.stopBegin turn.2 = (.joined, pool.world) := by
            simp [World.stopBegin, hsnapshot, hcalled]
          simp only [perform, hjoins]
          exact h.joins hthread trivial
      | false =>
          obtain ⟨hnow, hstopping, hreply⟩ := stopBegin_opened (h.opened hcalled) hcalled turn.2
          refine h.begins hthread hcalled hnow hstopping ?_
          simp only [perform]
          rcases hreply with hreply | hreply
          · rw [hreply]
            exact .releasing
          · rw [hreply]
            exact .failing
    · obtain ⟨hcalled, hstopping, -⟩ := h.closing turn.1 _ hthread hclosing
      have hafter : ∀ event, (pool.world.dispatch event).2.stopCalled = true ∧
          Fencing.Phased (fun _ => True) (pool.world.dispatch event).2 := by
        intro event
        obtain ⟨hlifecycle, hsame⟩ := dispatch_lifecycle pool.world event
        obtain ⟨snapshot, hsnapshot, -⟩ := hstopping
        exact ⟨hsame.trans hcalled, _, hlifecycle.trans (by rw [hsnapshot]; rfl), trivial⟩
      cases hclosing with
      | releasing =>
          exact h.closes hthread .releasing hcalled h.started (Or.inl ⟨.released, hstopping⟩)
      | released => exact h.closes hthread .released (hafter _).1 (hafter _).2 (Or.inr trivial)
      | failing => exact h.closes hthread .failing (hafter _).1 (hafter _).2 (Or.inr trivial)

/-- When the promise of `stop` resolves, the session is stopped. -/
theorem Inv.resolves {pool : Pool session Unit} (h : Inv pool) {turn : Pool.Turn session}
    (hresolves : Resolves pool turn) : Fencing.Phased Stopped (pool.step turn).world := by
  obtain ⟨action, next, hthread, hends⟩ := hresolves
  have haction := Action.endsStop_cases hends
  rw [Pool.step_call hthread]
  rcases h.programs _ (List.mem_of_getElem? hthread) with honly | hstop | hclosing
  · rcases haction with ⟨token, rfl⟩ | ⟨rfl, -⟩
    · exact absurd rfl (honly.1.2.1 token)
    · exact honly.1.elim
  · cases hstop
    rcases haction with ⟨token, hdispatch⟩ | ⟨-, halready⟩
    · cases hdispatch
    · cases hcalled : pool.world.stopCalled with
      | true =>
          obtain ⟨snapshot, hsnapshot, -⟩ := h.started
          simp [World.stopBegin, hsnapshot, hcalled] at halready
      | false =>
          obtain ⟨-, -, hreply⟩ := stopBegin_opened (h.opened hcalled) hcalled turn.2
          rcases hreply with hreply | hreply
          · rw [hreply] at halready
            cases halready
          · rw [hreply] at halready
            cases halready
  · obtain ⟨-, ⟨snapshot, hsnapshot, hstopping⟩, -⟩ := h.closing turn.1 _ hthread hclosing
    cases hclosing with
    | releasing => rcases haction with ⟨token, hdispatch⟩ | ⟨hbegin, -⟩ <;> contradiction
    | failing =>
        rcases haction with ⟨token, hdispatch⟩ | ⟨hbegin, -⟩
        · cases hdispatch
        · cases hbegin
    | released =>
        refine ⟨_, (dispatch_lifecycle pool.world _).1.trans (by rw [hsnapshot]; rfl), ?_⟩
        exact stopping_succeeds hstopping

/-- A stopped session stays so without another start, and lets no call past its check. -/
theorem stopped_perform {action : Action} (hone : action ≠ .dispatch .startRequested)
    (input : Input) {world : World} (h : Fencing.Phased Stopped world) :
    Fencing.Phased Stopped (perform action input world).2 ∧
      ¬ Admits action (perform action input world).1 := by
  constructor
  · obtain ⟨snapshot, hsnapshot, hstopped⟩ := h
    rcases (perform_lifecycle action input world).2 with hsame | ⟨event, hevent, hmoved⟩
    · exact ⟨snapshot, hsame.trans hsnapshot, hstopped⟩
    · have hne : event ≠ .startRequested := by
        rintro rfl
        cases action with
        | dispatch sent => exact hone (congrArg Action.dispatch hevent.symm)
        | afterRenew handle sessionToken => cases hevent
        | stopBegin => rcases hevent with hevent | hevent <;> cases hevent
        | _ => exact hevent.elim
      refine ⟨snapshot, hmoved.trans ?_, hstopped⟩
      rw [hsnapshot, Option.map_some, stopped_dispatch hstopped hne]
  · obtain ⟨snapshot, hsnapshot, hstopped⟩ := h
    have hphase : snapshot.phase = .stopped := hstopped
    cases action with
    | requireCapability capability =>
        intro hadmitted
        have hclosed : capability.read (appCapabilities snapshot) = false := by
          unfold appCapabilities
          split
          · cases capability <;> rfl
          · cases capability <;> simp [Capability.read, hphase]
        have hnone : world.refusal capability = none := hadmitted
        simp [World.refusal, hsnapshot, hclosed] at hnone
    | _ => exact id

theorem client_calm {action : Action} (h : ¬ action.ofSession) : Calm action := by
  cases action with
  | dispatch _ | lock | renew | afterRenew _ _ | readHandle | stopBegin | releaseLease
  | settled => exact absurd trivial h
  | _ => trivial

theorem hydrateAll_calm (config : ClientConfig) (hydrations : List (List ChangeEvent)) :
    (hydrateAll config hydrations).Only Calm := by
  induction hydrations with
  | nil => trivial
  | cons changes rest ih =>
      refine ⟨trivial, fun _ => ?_⟩
      have hhydrate : (hydrate config changes).Only Calm :=
        (hydrate_putsClean config changes).mono fun _ h => client_calm h.client
      exact hhydrate.bind fun _ => ih

theorem startSync_calm (config : ClientConfig) (options : StartOptions) :
    (startSync config options firstToken).Only Calm := by
  have hsucceeds : OfStart (.startSucceeded firstToken) := ⟨rfl, by simp, by simp⟩
  have hfails : OfStart (.startFailed firstToken) := ⟨rfl, by simp, by simp⟩
  have hheld : (startHeld config options firstToken).Only Calm := by
    refine (hydrateAll_calm config options.hydrations).bind fun _ => ⟨hsucceeds, fun _ => ?_⟩
    dsimp only
    split
    · have hflush : (flushQueue config .emitOnly).Only Calm :=
        (flushQueue_putsClean config .emitOnly).mono fun _ h => client_calm h.client
      exact hflush.bind fun _ => trivial
    · trivial
  unfold startSync
  split
  · refine ⟨trivial, fun granted => ?_⟩
    cases granted with
    | true => exact hheld
    | false => exact ⟨trivial, fun _ => ⟨trivial, fun _ => ⟨hfails, fun _ => trivial⟩⟩⟩
  · exact hheld

theorem thread_calm (config : ClientConfig) (thread : SessionThread) :
    (thread.program config).Only Calm ∨ thread.program config = stop := by
  cases thread with
  | call made =>
      refine Or.inl (Prog.Only.bind ?_ fun _ => trivial)
      exact (made.program_client config).mono fun _ => client_calm
  | heartbeat beats =>
      left
      unfold SessionThread.program
      dsimp only
      induction beats with
      | zero => trivial
      | succ beats ih =>
          refine ⟨trivial, fun found => ?_⟩
          cases found with
          | none => trivial
          | some handle =>
              refine ⟨trivial, fun _ => ⟨rfl, fun goesOn => ?_⟩⟩
              cases goesOn with
              | false => trivial
              | true => exact ih
  | reportTransport online => exact Or.inl ⟨⟨rfl, by simp, by simp⟩, fun _ => trivial⟩
  | stop => exact Or.inr rfl

theorem session_inv (config : ClientConfig) (options : StartOptions)
    (threads : List SessionThread) (store : Store) (clock : Clock) (keySeq : Nat)
    (leaseKey : String) (renewFailureLimit : Nat) :
    Inv (syncSession config options threads
      (startedWorld store clock keySeq leaseKey renewFailureLimit)) := by
  have hprograms : ∀ program ∈ (syncSession config options threads
      (startedWorld store clock keySeq leaseKey renewFailureLimit)).threads,
      program.Only Calm ∨ program = stop := by
    intro program hprogram
    rcases List.mem_cons.mp hprogram with rfl | hthread
    · exact Or.inl (startSync_calm config options)
    · obtain ⟨thread, -, rfl⟩ := List.mem_map.mp hthread
      exact thread_calm config thread
  have hnotStop : ¬ Closing stop := by
    intro hclosing
    generalize hprogram : stop = program at hclosing
    cases hclosing <;> cases hprogram
  refine ⟨fun program hprogram => (hprograms program hprogram).imp_right Or.inl, fun _ => ?_,
    ⟨_, rfl, trivial⟩, ?_⟩
  · exact ⟨_, rfl, by decide, by decide, by decide⟩
  · intro i program hprogram hclosing
    rcases hprograms program (List.mem_of_getElem? hprogram) with honly | rfl
    · exact absurd honly hclosing.not_calm
    · exact absurd hclosing hnotStop

/-- No thread asks for a second start. -/
theorem Inv.oneStart {pool : Pool session Unit} (h : Inv pool) :
    pool.Each fun _ (action : Action) => action ≠ .dispatch .startRequested := by
  have hcalm : ∀ action, Calm action → action ≠ .dispatch .startRequested := by
    rintro action haction rfl
    cases haction.1
  intro i program hprogram
  rcases h.programs program (List.mem_of_getElem? hprogram) with honly | rfl | hclosing
  · exact honly.mono hcalm
  · refine ⟨by simp, fun begun => ?_⟩
    cases begun with
    | transportsFailed stopToken => exact ⟨by simp, fun _ => trivial⟩
    | releasing stopToken => exact ⟨by simp, fun _ => ⟨by simp, fun _ => trivial⟩⟩
    | joined | alreadyStopped | rejected => trivial
  · cases hclosing with
    | releasing => exact ⟨by simp, fun _ => ⟨by simp, fun _ => trivial⟩⟩
    | released => exact ⟨by simp, fun _ => trivial⟩
    | failing => exact ⟨by simp, fun _ => trivial⟩

end StopSession

open StopSession

/-- In every run of a session, leased or not, in which no call is past its check with an
effect ahead of it when `stop` resolves, nothing is mutated or sent from then on, whether a
call began before or begins after. -/
theorem stop_is_final (config : ClientConfig) (options : StartOptions)
    (threads : List SessionThread) (store : Store) (clock : Clock) (keySeq : Nat)
    (leaseKey : String) (renewFailureLimit : Nat) (schedule : List (Pool.Turn session)) :
    let pool := syncSession config options threads
      (startedWorld store clock keySeq leaseKey renewFailureLimit)
    pool.Along StopsAtRest schedule → StopIsFinal pool schedule := by
  intro pool halong before turn after hschedule hresolves
  subst hschedule
  have hbefore : Inv (pool.run before) :=
    Run.preserved (J := Inv) (fun _ turn h => h.step turn) before (session_inv _ _ _ _ _ _ _ _)
  have hnow : StopsAtRest (pool.run before) turn :=
    ((Run.along_append pool before (turn :: after)).mp halong).2.1
  have hrun : pool.run (before ++ [turn]) = (pool.run before).step turn :=
    Run.final_append pool before [turn]
  rw [hrun]
  have hafter : Inv ((pool.run before).step turn) := hbefore.step turn
  have hatRest : ∀ program ∈ ((pool.run before).step turn).threads, AtRest program := by
    obtain ⟨action, next, hthread, haction⟩ := hresolves
    have hrest := hnow ⟨action, next, hthread, haction⟩
    rw [Pool.step_call hthread]
    intro program hprogram
    rcases List.mem_or_eq_of_mem_set hprogram with hother | rfl
    · exact hrest program hother
    · have hguarded := hrest _ (List.mem_of_getElem? hthread)
      refine (hguarded.2 _).resolve_left ?_
      rcases Action.endsStop_cases haction with ⟨token, rfl⟩ | ⟨rfl, -⟩ <;> exact id
  have hshut : ∀ (action : Action) (input : Input) (world : World),
      action ≠ .dispatch .startRequested → Fencing.Phased Stopped world →
      Fencing.Phased Stopped (perform action input world).2 ∧
        ¬ Admits action (perform action input world).1 :=
    fun _ input _ hone h => stopped_perform hone input h
  exact Pool.heeds_of_guarded hshut after (hbefore.resolves hresolves) hafter.oneStart hatRest

/-- A session without a lease, in which a server-first and an optimistic write run beside
`stop`. -/
def writesBesideStop : Pool session Unit :=
  syncSession { send := some (.backend false) } { leased := false }
    [.call (.write "notes" "n1" (some (.str "a")) { mode := some .serverFirst }), .stop,
      .call (.write "notes" "n2" (some (.str "b")) {})]
    (startedWorld {} (Clock.fresh "device-1") 0 "" 3)

/-- The session has started, and the first write awaits the response to its request. -/
def untilResponse : List (Pool.Turn session) := turns 0 1 ++ turns 1 5 { now := 5 }

/-- The response fails the first write, and `stop` is about to resolve. -/
def untilResolved : List (Pool.Turn session) :=
  untilResponse ++ turns 1 1 { response := .failed "offline" } ++ turns 2 2

theorem refused_write_is_over_before_stop :
    Resolves (writesBesideStop.run untilResolved) (2, {}) ∧
      StopIsFinal writesBesideStop (untilResolved ++ (2, {}) :: turns 3 11) := by
  have hquiet : ∀ (pool : Pool session Unit) (turn : Pool.Turn session),
      ¬ Resolves pool turn → StopsAtRest pool turn :=
    fun _ _ hnot hresolves => absurd hresolves hnot
  have hthreads : (writesBesideStop.run untilResolved).threads =
      [.ret (), .ret (), do let _ ← act (.dispatch (.stopSucceeded StopSession.stopToken)),
        (SessionThread.call (.write "notes" "n2" (some (.str "b")) {})).program
          { send := some (.backend false) }] := rfl
  refine ⟨by decide, stop_is_final _ _ _ _ _ _ _ _ _ ?_⟩
  refine (Run.along_append writesBesideStop untilResolved _).mpr ⟨?_, ?_, ?_⟩
  · exact Run.Along.mono hquiet (by decide)
  · intro _ program hprogram
    change program ∈ (writesBesideStop.run untilResolved).threads at hprogram
    simp only [hthreads, List.mem_cons, List.not_mem_nil, or_false] at hprogram
    rcases hprogram with rfl | rfl | rfl | rfl
    · trivial
    · trivial
    · exact ⟨by simp [Action.effect], fun _ => Or.inr trivial⟩
    · exact call_atRest _ _
  · exact Run.Along.mono hquiet (by decide)

/-- A write that awaits its response when `stop` resolves still stores its row. -/
theorem write_stores_after_stop :
    ¬ StopIsFinal writesBesideStop
      (untilResponse ++ turns 2 3 ++ turns 1 3 { response := .ok none }) := by
  intro hfinal
  have hheeds := hfinal (untilResponse ++ turns 2 2) (2, {})
    (turns 1 3 { response := .ok none }) rfl (by decide)
  revert hheeds
  decide

end ZedSync.Js
