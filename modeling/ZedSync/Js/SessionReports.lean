import Mathlib.Data.List.Nodup
import ZedSync.Js.Session

/-!
What the turns of a session (`sdk/src/start.mjs`) do to its connectivity: the reports of its
transports alone change it, under the token of the session, and the capabilities follow from
it and from where the startup is.
-/

namespace ZedSync.Js

namespace SyncSession

/-- What a turn without a report keeps: the transports that are up, those that started, and,
while the session serves, its connectivity. -/
structure Keeps (before after : SyncSession) : Prop where
  transports : after.onlineTransports = before.onlineTransports
  started : before.started ⊆ after.started
  serving : Serving after.lifecycle →
    Serving before.lifecycle ∧ after.lifecycle.online = before.lifecycle.online

section Keeps

variable {options : SyncOptions} {session before after : SyncSession}

theorem Keeps.of_eq (hlifecycle : after.lifecycle = before.lifecycle)
    (htransports : after.onlineTransports = before.onlineTransports)
    (hstarted : before.started ⊆ after.started) : Keeps before after := by
  refine ⟨htransports, hstarted, ?_⟩
  rw [hlifecycle]
  exact fun hserving => ⟨hserving, rfl⟩

theorem Keeps.refl (session : SyncSession) : Keeps session session :=
  .of_eq rfl rfl (List.Subset.refl _)

theorem Keeps.trans {middle : SyncSession} (hfirst : Keeps before middle)
    (hsecond : Keeps middle after) : Keeps before after := by
  refine ⟨hsecond.transports.trans hfirst.transports,
    List.Subset.trans hfirst.started hsecond.started, ?_⟩
  intro hserving
  obtain ⟨hmiddle, honline⟩ := hsecond.serving hserving
  obtain ⟨hbefore, honline'⟩ := hfirst.serving hmiddle
  exact ⟨hbefore, honline.trans honline'⟩

/-- Only the reports of the transports change the connectivity of a session. -/
theorem dispatch_keeps (session : SyncSession) (event : LifecycleEvent)
    (hstart : event ≠ .startRequested)
    (hreport : ∀ token online, event ≠ .connectivityChanged token online) :
    Keeps session (session.dispatch event).2 := by
  refine ⟨rfl, List.Subset.refl _, ?_⟩
  intro hserving
  have htransition := dispatch_transition session.lifecycle event
  refine ⟨(htransition.serving hstart hserving).1, ?_⟩
  change (Js.dispatch session.lifecycle event).1.online = _
  change Serving (Js.dispatch session.lifecycle event).1 at hserving
  generalize (Js.dispatch session.lifecycle event).1 = next at htransition hserving ⊢
  cases htransition with
  | kept => rfl
  | opened => exact absurd rfl hstart
  | succeeded => rfl
  | connected token phase online => exact absurd rfl (hreport token online)
  | closed _ _ hclosed => exact absurd hserving hclosed

theorem stopEvent_ne (phase : AppPhase) :
    World.stopEvent phase ≠ .startRequested ∧
      ∀ token online, World.stopEvent phase ≠ .connectivityChanged token online := by
  unfold World.stopEvent
  split
  · exact ⟨by simp, by simp⟩
  · exact ⟨by simp, by simp⟩

theorem failStart_keeps (options : SyncOptions) (session : SyncSession) :
    Keeps session (session.failStart options) := by
  unfold failStart stopTransports
  dsimp only
  split
  · exact .of_eq rfl rfl (List.Subset.refl _)
  · split
    · exact .of_eq rfl rfl (List.Subset.refl _)
    · exact (dispatch_keeps session (.startFailed firstToken) (by simp) (by simp)).trans
        (.of_eq rfl rfl (List.Subset.refl _))

theorem startTransports_keeps (options : SyncOptions) (session : SyncSession)
    (transports : List Transport) :
    Keeps session (session.startTransports options transports) := by
  induction transports generalizing session with
  | nil => exact .of_eq rfl rfl (List.Subset.refl _)
  | cons transport rest ih =>
      unfold startTransports
      split
      · exact failStart_keeps options session
      · have hstarted : Keeps session
            { session with
              started := session.started ++ [transport]
              stoppers := session.stoppers ++ [transport] } :=
          .of_eq rfl rfl (List.subset_append_left _ _)
        exact hstarted.trans (ih _)

theorem awaitAcquire_keeps (options : SyncOptions) (session : SyncSession) (lease : SyncLease) :
    Keeps session (session.awaitAcquire options lease) := by
  unfold awaitAcquire
  split
  · exact .of_eq rfl rfl (List.Subset.refl _)
  · split
    · exact startTransports_keeps options session _
    · exact failStart_keeps options session

theorem onLost_keeps (options : SyncOptions) (session : SyncSession) :
    Keeps session (session.onLost options) := by
  unfold onLost stopTransports
  dsimp only
  have hstopped : Keeps session
      { session with
        stoppers := []
        stopped := session.stopped ++ invoked options.stopThrows session.stoppers } :=
    .of_eq rfl rfl (List.Subset.refl _)
  split
  · exact hstopped
  · exact hstopped.trans (dispatch_keeps _ (.runtimeFailed firstToken) (by simp) (by simp))

theorem stop_keeps (options : SyncOptions) (session : SyncSession) :
    Keeps session (session.stop options) := by
  unfold stop
  split
  · exact .refl session
  · obtain ⟨hstart, hreport⟩ := stopEvent_ne session.lifecycle.phase
    have hrequested := dispatch_keeps session _ hstart hreport
    dsimp only
    generalize (session.dispatch (World.stopEvent session.lifecycle.phase)) = result at hrequested
    obtain ⟨outcome, requested⟩ := result
    dsimp only at hrequested ⊢
    refine hrequested.trans ?_
    split
    · exact .refl requested
    · unfold stopTransports
      dsimp only
      have hcleaned : Keeps requested
          { requested with
            cleanups := requested.cleanups + 1
            stoppers := []
            stopped := requested.stopped ++ invoked options.stopThrows requested.stoppers } :=
        .of_eq rfl rfl (List.Subset.refl _)
      refine hcleaned.trans ?_
      split
      · exact (dispatch_keeps _ (.stopFailed _) (by simp) (by simp)).trans
          (.of_eq rfl rfl (List.Subset.refl _))
      · split
        · exact .of_eq rfl rfl (List.Subset.refl _)
        · exact (dispatch_keeps _ (.stopSucceeded _) (by simp) (by simp)).trans
            (.of_eq rfl rfl (List.Subset.refl _))

theorem released_keeps (session : SyncSession) : Keeps session session.released := by
  unfold released
  split
  · exact (dispatch_keeps session (.startFailed firstToken) (by simp) (by simp)).trans
      (.of_eq rfl rfl (List.Subset.refl _))
  · split
    · exact (dispatch_keeps session (.stopSucceeded _) (by simp) (by simp)).trans
        (.of_eq rfl rfl (List.Subset.refl _))
    · exact .refl session

/-- Every turn but a report keeps the connectivity. -/
theorem step_keeps (options : SyncOptions) (session : SyncSession) {event : SessionEvent}
    (hreport : ∀ transport online, event ≠ .status transport online) :
    Keeps session (step options session event) := by
  cases event with
  | storeOpens constructs clock =>
      dsimp only [step]
      split
      · exact .refl session
      · split
        · exact failStart_keeps options session
        · split
          · exact startTransports_keeps options session _
          · split
            · exact failStart_keeps options session
            · refine Keeps.trans ?_ (awaitAcquire_keeps options _ _)
              exact .of_eq rfl rfl (List.Subset.refl _)
  | lease turn hquiet =>
      dsimp only [step]
      split
      · exact .refl session
      · rename_i lease hlease
        have hturned : Keeps session
            { session with
              lease := some
                { lease with state := SyncLease.step lease.options lease.state turn } } :=
          .of_eq rfl rfl (List.Subset.refl _)
        split
        · exact hturned.trans (onLost_keeps options _)
        · split
          · exact hturned.trans (awaitAcquire_keeps options _ _)
          · exact hturned
  | hydrated =>
      dsimp only [step]
      split
      · exact .refl session
      · exact (dispatch_keeps session (.startSucceeded firstToken) (by simp) (by simp)).trans
          (.of_eq rfl rfl (List.Subset.refl _))
  | flushed =>
      dsimp only [step]
      split
      · exact .of_eq rfl rfl (List.Subset.refl _)
      · exact .refl session
  | status transport online => exact absurd rfl (hreport transport online)
  | released =>
      dsimp only [step]
      split
      · exact .refl session
      · exact released_keeps session
  | stop =>
      dsimp only [step]
      split
      · exact stop_keeps options session
      · exact .refl session

end Keeps

section Reports

variable {session : SyncSession}

/-- The lifecycle tells of a serving session whether a transport is up. -/
def Tells (session : SyncSession) : Prop :=
  Serving session.lifecycle → session.lifecycle.online = !session.onlineTransports.isEmpty

theorem Keeps.tells {before after : SyncSession} (h : Keeps before after) (htells : before.Tells) :
    after.Tells := by
  intro hserving
  obtain ⟨hbefore, honline⟩ := h.serving hserving
  rw [honline, htells hbefore, h.transports]

/-- What a report makes of the transports that are up. -/
def heard (session : SyncSession) (transport : Transport) (online : Bool) : List Transport :=
  if online then session.onlineTransports.insert transport
  else session.onlineTransports.erase transport

theorem mem_heard (hnodup : session.onlineTransports.Nodup) (transport other : Transport)
    (online : Bool) :
    other ∈ session.heard transport online ↔
      if other = transport then online = true else other ∈ session.onlineTransports := by
  cases online with
  | true =>
      simp only [heard, if_true, List.mem_insert_iff]
      split
      · rename_i heq
        simp [heq]
      · rename_i hne
        simp [hne]
  | false =>
      simp only [heard, Bool.false_eq_true, if_false, hnodup.mem_erase_iff]
      split
      · rename_i heq
        simp [heq]
      · rename_i hne
        simp [hne]

theorem nodup_heard (hnodup : session.onlineTransports.Nodup) (transport : Transport)
    (online : Bool) : (session.heard transport online).Nodup := by
  unfold heard
  split
  · exact List.Nodup.insert hnodup
  · exact hnodup.erase transport

/-- A report under the token of a serving session is applied, or tells nothing new. -/
theorem reported_online {session : SyncSession} (h : session.Stands) (online : Bool)
    (hserving : Serving session.lifecycle) :
    (Js.dispatch session.lifecycle (.connectivityChanged firstToken online)).1.online =
      online := by
  obtain ⟨standing, hlifecycle, -⟩ := h
  rw [hlifecycle] at hserving ⊢
  cases standing with
  | starting before => cases before <;> cases online <;> rfl
  | running before => cases before <;> cases online <;> rfl
  | lost | startFailed | stopped | stopFailed =>
      simp [Serving, Running, Standing.snapshot, failed, initialSnapshot] at hserving
  | stopping operation => simp [Serving, Running, Standing.snapshot] at hserving

theorem reportTransport_tells (h : session.Stands) (transport : Transport) (online : Bool) :
    (session.reportTransport transport online).Tells := by
  intro hserving
  have htransition := dispatch_transition session.lifecycle
    (.connectivityChanged firstToken (!(session.heard transport online).isEmpty))
  have hbefore : Serving session.lifecycle := (htransition.serving (by simp) hserving).1
  exact reported_online h _ hbefore

/-- The capabilities a coherent snapshot grants to a session. -/
theorem capabilities_of_valid {snapshot : AppLifecycleSnapshot}
    (hvalid : lifecycleInvariant snapshot = true) :
    ((appCapabilities snapshot).canReceiveChanges = true ↔ Serving snapshot) ∧
      ((appCapabilities snapshot).canWrite = true ↔ Running snapshot) ∧
      ((appCapabilities snapshot).canFlush = true ↔
        Running snapshot ∧ snapshot.online = true) := by
  have hcoherent : coherent snapshot = true := by
    simp only [lifecycleInvariant, Bool.decide_and, Bool.and_eq_true] at hvalid
    simpa using hvalid.2.2
  simp only [appCapabilities, hvalid, Bool.not_true, Bool.false_eq_true, if_false]
  unfold coherent at hcoherent
  cases hphase : snapshot.phase <;> simp [hphase, Serving, Running] at hcoherent ⊢
  · exact hcoherent.2.2.2.1
  · exact hcoherent.2.2.2.1

theorem Stands.valid (h : session.Stands) : lifecycleInvariant session.lifecycle = true := by
  obtain ⟨standing, hlifecycle, hat⟩ := h
  rw [hlifecycle]
  cases standing with
  | starting online => cases online <;> rfl
  | running online => cases online <;> rfl
  | stopping operation => obtain ⟨rfl | rfl, -⟩ := hat <;> rfl
  | lost | startFailed | stopped | stopFailed => rfl

/-- A serving session runs from the success of its startup. -/
theorem Stands.running_iff (h : session.Stands) :
    Running session.lifecycle ↔
      Serving session.lifecycle ∧ (session.stage = .flushing ∨ session.stage = .returned) := by
  obtain ⟨standing, hlifecycle, hat⟩ := h
  rw [hlifecycle]
  cases standing with
  | starting online =>
      simp [Serving, Running, Standing.snapshot, hat.2.1, hat.2.2]
  | running online =>
      simp only [hat.2, and_true]
      cases online <;> simp [Serving, Running, Standing.snapshot]
  | lost | startFailed | stopped | stopFailed =>
      simp [Serving, Running, Standing.snapshot, failed, initialSnapshot]
  | stopping operation => simp [Serving, Running, Standing.snapshot]

/-- A session that has ended is not reopened by any of its turns. -/
theorem step_serving (options : SyncOptions) (session : SyncSession) (event : SessionEvent)
    (hserving : Serving (step options session event).lifecycle) : Serving session.lifecycle := by
  cases event with
  | status transport online =>
      dsimp only [step] at hserving
      split at hserving
      · have htransition := dispatch_transition session.lifecycle
          (.connectivityChanged firstToken (!(session.heard transport online).isEmpty))
        exact (htransition.serving (by simp) hserving).1
      · exact hserving
  | _ => exact ((step_keeps options session (by simp)).serving hserving).1

end Reports

end SyncSession

end ZedSync.Js
