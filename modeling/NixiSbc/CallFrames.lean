import NixiSbc.AnsweredCalls

namespace NixiSbc.CallFrames

open Stun CallSetup InviteRetries Teardown ResponseHandler CallHandlers RetrySteps FailoverSteps
open B2bua (CallLeg)

/-- The number of the refresh that is not answered. -/
def pendingOf (call : SetupCall) : Option UInt32 := call.sessionTimer.bind (·.pendingRefreshCseq)

section Frames

variable {cfg : Config} {call : SetupCall}

/-- The counters of both legs are as they were, the callee can still be reached,
and no refresh has become pending. -/
structure Steady (call after : SetupCall) : Prop where
  leg : after.outbound.map CallLeg.cseq = call.outbound.map CallLeg.cseq
  caller : after.sentCseqTowardCaller = call.sentCseqTowardCaller
  dest : call.calleeDest.isSome = true → after.calleeDest.isSome = true
  pending : pendingOf after = pendingOf call ∨ pendingOf after = none

theorem Steady.refl (call : SetupCall) : Steady call call := ⟨rfl, rfl, id, .inl rfl⟩

theorem Steady.trans {a b c : SetupCall} (h : Steady a b) (h' : Steady b c) : Steady a c := by
  refine ⟨h'.leg.trans h.leg, h'.caller.trans h.caller, h'.dest ∘ h.dest, ?_⟩
  rcases h'.pending with hsame | hnone
  · rw [hsame]
    exact h.pending
  · exact .inr hnone

theorem steady_onProvisional (now : Nat) (status : UInt16) : Steady call (onProvisional call now status) := by
  unfold onProvisional
  split
  next => exact ⟨rfl, rfl, id, .inl rfl⟩
  next => exact ⟨rfl, rfl, id, .inl rfl⟩

theorem steady_handleAck : Steady call (handleAck call) := by
  rw [handleAck_eq]
  exact ⟨rfl, rfl, id, .inl rfl⟩

theorem steady_answered (now : Nat) (r : Response) : Steady call (answered cfg call now r) := by
  have hestablished (leg : Option CallLeg) (f : CallLeg → CallLeg) (hf : ∀ l, (f l).cseq = l.cseq) :
      (leg.map f).map CallLeg.cseq = leg.map CallLeg.cseq := by
    rw [Option.map_map]
    exact congrArg (leg.map ·) (funext hf)
  have h200 : Steady call (handle200Ok call now (r.toTag.getD [])) := ⟨hestablished _ _ fun _ => rfl, rfl, id, .inl rfl⟩
  have harm (c : SetupCall) : Steady c (armSessionTimer cfg c now r.text) := by
    unfold armSessionTimer
    split
    next => exact ⟨rfl, rfl, id, .inr rfl⟩
    next => exact ⟨rfl, rfl, id, .inl rfl⟩
  have hdialog (c : SetupCall) (fromRaw toRaw : List Char) (contact : Option (List Char)) :
      Steady c (setEstablishedDialog c fromRaw toRaw contact) := ⟨hestablished _ _ fun _ => rfl, rfl, id, .inl rfl⟩
  unfold answered
  dsimp only
  split
  next => exact (h200.trans (hdialog _ _ _ _)).trans (harm _)
  next => exact h200.trans (harm _)

theorem steady_407 (scene : Scene) (response : List Char) (source : SocketAddr) :
    Steady call (handle407AuthRetry cfg scene call response source).2.1 := by
  unfold handle407AuthRetry
  split
  next => exact .refl call
  next =>
    dsimp only
    split
    next => exact ⟨rfl, rfl, fun _ => rfl, .inl rfl⟩
    next => exact .refl call

theorem steady_422 (scene : Scene) (response : List Char) (source : SocketAddr) :
    Steady call (handle422SessionIntervalRetry cfg scene call response source).2.1 := by
  unfold handle422SessionIntervalRetry
  split
  next => exact .refl call
  next =>
    dsimp only
    split
    next => exact ⟨rfl, rfl, fun _ => rfl, .inl rfl⟩
    next => exact .refl call

theorem steady_take {now : Nat} {id : Trunks.TrunkId} {after : SetupCall}
    (h : takeNextFailoverCandidate call now = some (id, after)) : Steady call after := by
  obtain ⟨fo, rest, -, -, rfl⟩ := take_cases h
  exact ⟨rfl, rfl, fun hdest => hdest, .inl rfl⟩

theorem steady_switchTrunk (now : Nat) (raw : List Char) (trunk : OutboundTrunk) (dest : SocketAddr) :
    Steady call (switchTrunk cfg call now raw trunk dest) := by
  refine ⟨?_, rfl, fun _ => rfl, .inl rfl⟩
  change (call.outbound.map _).map CallLeg.cseq = _
  rw [Option.map_map]
  rfl

theorem steady_failsOver {look : Nat → Scene} {r : Retried} (h : FailsOver cfg look call r) :
    Steady call r.2.1 := by
  induction h with
  | exhausted htake => exact .refl _
  | passed htake hselectable hrest ih => exact (steady_take htake).trans ih
  | unstored htake => exact steady_take htake
  | unreadable htake => exact steady_take htake
  | taken htake => exact (steady_take htake).trans (steady_switchTrunk _ _ _ _)
  | untaken htake hselectable hstored hinvite hrest ih => exact (steady_take htake).trans ih

variable (cfg call) in
theorem steady_failover (look : Nat → Scene) : Steady call (failoverToNextTrunk cfg look call).2.1 :=
  steady_failsOver (failsOver_nextTrunk cfg call look)

theorem steady_onStatus (a : Arrival) (r : Response) : Steady call (onStatus cfg a call r).after := by
  unfold onStatus
  split
  next => exact steady_onProvisional _ _
  next =>
    split
    next =>
      unfold onAnswer
      dsimp only
      split
      next => exact steady_answered _ r
      next => exact steady_answered _ r
    next =>
      split
      next =>
        rw [AnsweredCalls.after_retriedOr]
        exact steady_407 _ _ _
      next =>
        split
        next =>
          rw [AnsweredCalls.after_retriedOr]
          exact steady_422 _ _ _
        next =>
          unfold onError
          split
          next =>
            split
            next id after htake =>
              have hback : Steady call (putBack after id) :=
                ⟨(steady_take htake).leg, (steady_take htake).caller, (steady_take htake).dest, (steady_take htake).pending⟩
              rw [AnsweredCalls.after_retriedOr]
              exact hback.trans (steady_failover cfg _ a.look)
            next => exact .refl call
          next => exact .refl call

theorem steady_completeSessionRefresh (V : TextFields.Uppering) (cseq : UInt32) (branch localIp : List Char)
    (localPort : UInt16) : Steady call (call.mapCall fun _ =>
      (B2bua.completeSessionRefresh V call.toB2buaCall cseq branch localIp localPort).2) := by
  unfold B2bua.completeSessionRefresh
  split
  next => exact .refl call
  next =>
    split
    next => exact .refl call
    next => exact ⟨rfl, rfl, id, .inr rfl⟩

theorem steady_failSessionRefresh (U : RawSip.Lowering) (now delayMs : Nat) (cseq : UInt32) (status : UInt16)
    (minSe422 : Option UInt32) (responseTo : List Char) : Steady call (call.mapCall fun _ =>
      (B2bua.failSessionRefresh U call.toB2buaCall now delayMs cseq status minSe422 responseTo).2) := by
  unfold B2bua.failSessionRefresh
  split
  next => exact .refl call
  next =>
    split
    next => exact .refl call
    next =>
      dsimp only
      split
      next => exact ⟨rfl, rfl, id, .inr rfl⟩
      next =>
        split
        next => exact ⟨rfl, rfl, id, .inr rfl⟩
        next => exact ⟨rfl, rfl, id, .inr rfl⟩

/-- A refresh that ends the call sends the caller a BYE, else no number changes. -/
theorem steady_refreshResponse {a : Arrival} {r : Response} {cseq : UInt32} {after : SetupCall}
    (h : (handleRefreshResponse cfg a call r cseq).left = some after) : Steady call after := by
  unfold handleRefreshResponse at h
  split at h
  next =>
    cases h
    exact .refl call
  next =>
    split at h
    next =>
      cases h
      exact steady_completeSessionRefresh _ _ _ _ _
    next =>
      dsimp only at h
      split at h
      next =>
        cases h
        exact steady_failSessionRefresh _ _ _ _ _ _ _
      next =>
        split at h
        next => cases h
        next =>
          cases h
          exact steady_failSessionRefresh _ _ _ _ _ _ _

theorem left_eq {fx : Effects} {after : SetupCall} (h : fx.left = some after) : after = fx.after := by
  unfold Effects.left at h
  split at h
  next => exact (Option.some.inj h).symm
  next => cases h

theorem steady_handleResponse {a : Arrival} {r : Response} {after : SetupCall}
    (h : (handleResponse cfg a call r).left = some after) : Steady call after := by
  have hhandled := handled_response cfg call a r
  generalize handleResponse cfg a call r = fx at hhandled h
  cases hhandled with
  | arms from_ acks harms hfrom hacks =>
      have hafter : after = (onStatus cfg a from_ r).after := left_eq h
      rw [hafter]
      rcases hfrom with rfl | rfl
      · exact steady_onStatus a r
      · have hmarked : Steady call (markCalleeResponded call) := ⟨rfl, rfl, id, .inl rfl⟩
        exact hmarked.trans (steady_onStatus a r)
  | refresh cseq harms hpending => exact steady_refreshResponse h
  | apart sent harms hsent =>
      cases h
      exact .refl call

/-- Of the events that leave a call in the map only its refresh touches a counter. -/
theorem steady_onEvent {event : CallEvent} {after : SetupCall} (h : (onEvent cfg call event).left = some after)
    (hevent : ∀ now branch, event ≠ .refresh now branch) : Steady call after := by
  have hended {fx : Effects} (hsome : fx.ended ≠ none) (h : fx.left = some after) : Steady call after := by
    rw [Effects.left, if_neg hsome] at h
    cases h
  have hunchanged (h : (unchanged call).left = some after) : Steady call after := by
    cases h
    exact .refl call
  cases event with
  | response a r => exact steady_handleResponse h
  | ack request draw =>
      cases h
      exact steady_handleAck
  | bye byCaller reason relayed branch =>
      refine hended ?_ h
      simp only [onEvent, onBye]
      split
      next => split <;> exact Option.some_ne_none _
      next => exact Option.some_ne_none _
  | cancel request =>
      simp only [onEvent, onCancel] at h
      split at h
      next => exact hunchanged h
      next => cases h
  | inviteTimeout look timeout =>
      simp only [onEvent, onInviteTimeout] at h
      split at h
      next =>
        cases h
        exact steady_failover cfg call look
      next => exact hunchanged h
  | setupTimeout now limit branches =>
      simp only [onEvent] at h
      split at h
      next => cases h
      next => exact hunchanged h
  | rtpTimeout branches =>
      simp only [onEvent] at h
      split at h
      next => cases h
      next => exact hunchanged h
  | hangup trigger branches => cases h
  | closed peer branch =>
      simp only [onEvent, onClosed] at h
      split at h
      next => split at h <;> cases h
      next => exact hunchanged h
  | refresh now branch => exact absurd rfl (hevent now branch)

end Frames

end NixiSbc.CallFrames
