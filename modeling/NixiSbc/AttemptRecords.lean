import NixiSbc.CallLedger
import NixiSbc.InviteAttempts

namespace NixiSbc.AttemptRecords

open Stun CallSetup InviteRetries Teardown ResponseHandler CallHandlers RetrySteps FailoverSteps
open CallLedger InviteAttempts
open B2bua (InviteAttempt attemptOf remember)

/-- The attempt that an INVITE is recorded as: the first one before it is sent,
a later one when the network has taken it. -/
def recordOf (cfg : Config) (s : Sent) : Option InviteAttempt :=
  match s.kind with
  | .invite origin trunk taken =>
      if taken ∨ origin = .first then some (attemptOf cfg.lower s.raw s.dest s.transport trunk) else none
  | _ => none

def records (cfg : Config) (sent : List Sent) : List InviteAttempt := sent.filterMap (recordOf cfg)

/-- All that is sent for a call and is an attempt is recorded in it. -/
def Logged (cfg : Config) (call after : SetupCall) (sent : List Sent) : Prop :=
  after.inviteAttempts = (records cfg sent).foldl remember call.inviteAttempts

section Steps

variable {cfg : Config} {call after : SetupCall} {sent : List Sent}

theorem records_of_noInvites (h : NoInvites sent) : records cfg sent = [] := by
  rw [records, List.filterMap_eq_nil_iff]
  intro s hs
  have hno := h s hs
  unfold isInvite at hno
  unfold recordOf
  split
  next heq => rw [heq] at hno; cases hno
  next => rfl

theorem Logged.quiet (h : after.inviteAttempts = call.inviteAttempts) (hsent : NoInvites sent) :
    Logged cfg call after sent := by
  rw [Logged, records_of_noInvites hsent]
  exact h

theorem Logged.of_quiet {fx : Effects} (h : Quiet call fx) : Logged cfg call fx.after fx.sent :=
  .quiet h.same.attempts h.sent

theorem Logged.trans {middle : SetupCall} {sent' : List Sent} (h : Logged cfg call middle sent)
    (h' : Logged cfg middle after sent') : Logged cfg call after (sent ++ sent') := by
  rw [Logged, records, List.filterMap_append, List.foldl_append, h', h]
  rfl

theorem logged_nil (call : SetupCall) : Logged cfg call call [] := .quiet rfl noInvites_nil

/-- An INVITE that is not taken leaves no record, unless it is the first. -/
theorem logged_untaken {s : Sent} (origin : Origin) {trunk : Option Trunks.TrunkId}
    (h : s.kind = .invite origin trunk false) (horigin : origin ≠ .first) : Logged cfg call call [s] := by
  have hrecord : recordOf cfg s = none := by
    unfold recordOf
    rw [h]
    exact if_neg (not_or.mpr ⟨Bool.false_ne_true, horigin⟩)
  rw [Logged, records, List.filterMap_cons_none hrecord]
  rfl

theorem logged_recorded {s : Sent} {origin : Origin} {trunk : Option Trunks.TrunkId} {taken : Bool}
    (h : s.kind = .invite origin trunk taken) (hrecorded : taken = true ∨ origin = .first)
    (hafter : after.inviteAttempts =
      remember call.inviteAttempts (attemptOf cfg.lower s.raw s.dest s.transport trunk)) :
    Logged cfg call after [s] := by
  have hrecord : recordOf cfg s = some (attemptOf cfg.lower s.raw s.dest s.transport trunk) := by
    unfold recordOf
    rw [h]
    exact if_pos hrecorded
  rw [Logged, records, List.filterMap_cons_some hrecord]
  exact hafter

theorem logged_407 (scene : Scene) (response : List Char) (source : SocketAddr) :
    Logged cfg call (handle407AuthRetry cfg scene call response source).2.1
      (handle407AuthRetry cfg scene call response source).2.2 := by
  unfold handle407AuthRetry
  split
  next => exact logged_nil call
  next =>
    dsimp only
    split
    next htaken => exact logged_recorded rfl (.inl htaken) rfl
    next htaken =>
      rw [Bool.eq_false_of_not_eq_true htaken]
      exact logged_untaken .auth rfl (nomatch ·)

theorem logged_422 (scene : Scene) (response : List Char) (source : SocketAddr) :
    Logged cfg call (handle422SessionIntervalRetry cfg scene call response source).2.1
      (handle422SessionIntervalRetry cfg scene call response source).2.2 := by
  unfold handle422SessionIntervalRetry
  split
  next => exact logged_nil call
  next =>
    dsimp only
    split
    next htaken => exact logged_recorded rfl (.inl htaken) rfl
    next htaken =>
      rw [Bool.eq_false_of_not_eq_true htaken]
      exact logged_untaken .interval rfl (nomatch ·)

theorem logged_cancel {now : Nat} {id : Trunks.TrunkId}
    (h : takeNextFailoverCandidate call now = some (id, after)) (stored : List Char) :
    Logged cfg call after (cancelPrevious cfg after stored) := by
  obtain ⟨fo, rest, -, -, rfl⟩ := take_cases h
  exact .quiet rfl (noInvites_cancel stored)

theorem logged_take {now : Nat} {id : Trunks.TrunkId}
    (h : takeNextFailoverCandidate call now = some (id, after)) : Logged cfg call after [] := by
  obtain ⟨fo, rest, -, -, rfl⟩ := take_cases h
  exact .quiet rfl noInvites_nil

theorem logged_failsOver {look : Nat → Scene} {r : Retried} (h : FailsOver cfg look call r) :
    Logged cfg call r.2.1 r.2.2 := by
  induction h with
  | exhausted htake => exact logged_nil _
  | passed htake hselectable hrest ih => exact (logged_take htake).trans ih
  | unstored htake => exact logged_take htake
  | unreadable htake => exact logged_cancel htake _
  | taken htake => exact (logged_cancel htake _).trans (logged_recorded rfl (.inl rfl) rfl)
  | untaken htake hselectable hstored hinvite hrest ih =>
      exact (logged_cancel htake _).trans ((logged_untaken .failover rfl (nomatch ·)).trans ih)

variable (cfg call) in
theorem logged_failover (look : Nat → Scene) :
    Logged cfg call (failoverToNextTrunk cfg look call).2.1 (failoverToNextTrunk cfg look call).2.2 :=
  logged_failsOver (failsOver_nextTrunk cfg call look)

theorem sent_retriedOr (status : UInt16) (raw : List Char) {r : Retried} (h : Logged cfg call r.2.1 r.2.2) :
    Logged cfg call (retriedOr status raw r).after (retriedOr status raw r).sent := by
  unfold retriedOr
  split
  next => exact h
  next => exact h

theorem logged_onStatus (a : Arrival) (r : Response) :
    Logged cfg call (onStatus cfg a call r).after (onStatus cfg a call r).sent := by
  unfold onStatus
  split
  next => exact .quiet (same_onProvisional _ _).attempts noInvites_nil
  next =>
    split
    next =>
      unfold onAnswer
      dsimp only
      split
      next =>
        exact .quiet (same_answered _ r).attempts ((noInvites_ackForAnswered _).append (noInvites_hangup _ _))
      next => exact .quiet (same_answered _ r).attempts noInvites_nil
    next =>
      split
      next => exact sent_retriedOr _ _ (logged_407 _ _ _)
      next =>
        split
        next => exact sent_retriedOr _ _ (logged_422 _ _ _)
        next =>
          unfold onError
          split
          next =>
            split
            next id after htake =>
              have hback : Logged cfg call (putBack after id) [] :=
                .quiet (same_putBack htake).attempts noInvites_nil
              exact sent_retriedOr _ _ (hback.trans (logged_failover cfg _ a.look))
            next => exact logged_nil call
          next => exact logged_nil call

theorem logged_handleResponse (a : Arrival) (r : Response) :
    Logged cfg call (handleResponse cfg a call r).after (handleResponse cfg a call r).sent := by
  have hhandled := handled_response cfg call a r
  generalize handleResponse cfg a call r = fx at hhandled ⊢
  cases hhandled with
  | arms from_ acks harms hfrom hacks =>
      have hacked : Logged cfg call from_ acks := by
        rcases hfrom with rfl | rfl
        · exact .quiet rfl hacks
        · exact .quiet rfl hacks
      exact hacked.trans (logged_onStatus a r)
  | refresh cseq harms hpending => exact .of_quiet (quiet_refreshResponse a r cseq)
  | apart sent harms hsent => exact .quiet rfl hsent

variable (cfg call) in
theorem logged_onEvent (event : CallEvent) :
    Logged cfg call (onEvent cfg call event).after (onEvent cfg call event).sent := by
  cases hevent : mayInvite event with
  | false => exact .of_quiet (quiet_onEvent cfg call hevent)
  | true =>
      cases event with
      | response a r => exact logged_handleResponse a r
      | inviteTimeout look timeout =>
          dsimp only [onEvent, onInviteTimeout]
          split
          next => exact logged_failover cfg call look
          next => exact logged_nil call
      | _ => cases hevent

theorem attempts_new (n : NewCall) : n.call.inviteAttempts = [] := by
  unfold NewCall.call
  split
  next => rfl
  next => rfl

theorem logged_setUp (n : NewCall) (setup : Setup) :
    Logged cfg n.call (setUp cfg n setup).after (setUp cfg n setup).sent := by
  cases setup with
  | refused why raw => exact logged_nil n.call
  | forwarded look route raw localTag =>
      have hrouted : (routed n route).inviteAttempts = n.call.inviteAttempts := by
        cases route with
        | contact dest transport replyTx => rfl
        | trunk t dest candidates => rfl
      have hfirst : Logged cfg n.call
          (recorded cfg (look (candidatesLeft (routed n route).toB2buaCall)).now n route raw localTag)
          [⟨⟨raw, route.dest, route.transport, route.replyTx⟩, .invite .first route.trunkId
            (look (candidatesLeft (routed n route).toB2buaCall)).taken⟩] := by
        refine logged_recorded rfl (.inr rfl) ?_
        rw [← hrouted]
        rfl
      unfold setUp forwardInvite
      dsimp only
      split
      next => exact hfirst
      next =>
        split
        next => exact hfirst.trans (logged_failover cfg _ look)
        next => exact hfirst.trans (logged_failover cfg _ look)

end Steps

end NixiSbc.AttemptRecords
