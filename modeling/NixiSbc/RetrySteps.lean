import NixiSbc.CallHandlers

namespace NixiSbc.RetrySteps

open Stun CallSetup InviteRetries Teardown ResponseHandler CallHandlers
open B2bua (B2buaCall InviteAttempt Transport)
open Trunks (TrunkId)

def isInvite (s : Sent) : Bool :=
  match s.kind with
  | .invite _ _ _ => true
  | _ => false

/-- A list without INVITEs that set a call up. -/
def NoInvites (sent : List Sent) : Prop := ∀ s ∈ sent, isInvite s = false

theorem noInvites_nil : NoInvites [] := fun _ hs => absurd hs List.not_mem_nil

theorem noInvites_singleton {s : Sent} (h : isInvite s = false) : NoInvites [s] := by
  intro t ht
  rw [List.mem_singleton.mp ht]
  exact h

theorem noInvites_map {α : Type} {items : List α} {f : α → Sent} (h : ∀ x, isInvite (f x) = false) :
    NoInvites (items.map f) := by
  intro s hs
  obtain ⟨x, -, rfl⟩ := List.mem_map.mp hs
  exact h x

theorem NoInvites.append {sent sent' : List Sent} (h : NoInvites sent) (h' : NoInvites sent') :
    NoInvites (sent ++ sent') := fun s hs => (List.mem_append.mp hs).elim (h s) (h' s)

def candidatesOf (call : B2buaCall) : List TrunkId := call.failover.elim [] (·.candidates)

/-- The same INVITE to the same trunk, with the same ways to send it again. -/
structure SameAttempts (call after : SetupCall) : Prop where
  candidates : candidatesOf after.toB2buaCall = candidatesOf call.toB2buaCall
  interval : after.sessionTimerRetryCount = call.sessionTimerRetryCount
  auth : after.authRetryCount = call.authRetryCount
  stored : after.originalOutboundInvite = call.originalOutboundInvite
  attempts : after.inviteAttempts = call.inviteAttempts
  trunk : after.trunkId = call.trunkId

theorem SameAttempts.refl (call : SetupCall) : SameAttempts call call := ⟨rfl, rfl, rfl, rfl, rfl, rfl⟩

theorem SameAttempts.trans {a b c : SetupCall} (h : SameAttempts a b) (h' : SameAttempts b c) :
    SameAttempts a c :=
  ⟨h'.candidates.trans h.candidates, h'.interval.trans h.interval, h'.auth.trans h.auth,
    h'.stored.trans h.stored, h'.attempts.trans h.attempts, h'.trunk.trans h.trunk⟩

section Frames

variable {cfg : Config} {call : SetupCall}

theorem same_onProvisional (now : Nat) (status : UInt16) :
    SameAttempts call (onProvisional call now status) := by
  unfold onProvisional
  split
  next =>
    refine ⟨?_, rfl, rfl, rfl, rfl, rfl⟩
    change (Option.map _ call.failover).elim [] _ = call.failover.elim [] _
    cases call.failover with
    | none => rfl
    | some fo => rfl
  next => exact ⟨rfl, rfl, rfl, rfl, rfl, rfl⟩

theorem same_handleAck : SameAttempts call (handleAck call) := by
  rw [handleAck_eq]
  exact ⟨rfl, rfl, rfl, rfl, rfl, rfl⟩

theorem same_answered (now : Nat) (r : Response) : SameAttempts call (answered cfg call now r) := by
  unfold answered armSessionTimer
  dsimp only
  split
  next => split <;> exact ⟨rfl, rfl, rfl, rfl, rfl, rfl⟩
  next => split <;> exact ⟨rfl, rfl, rfl, rfl, rfl, rfl⟩

/-- What an operation on the legs and the timers leaves alone. -/
structure Frame (c c' : B2buaCall) : Prop where
  failover : c'.failover = c.failover
  stored : c'.originalOutboundInvite = c.originalOutboundInvite
  attempts : c'.inviteAttempts = c.inviteAttempts
  trunk : c'.trunkId = c.trunkId

theorem Frame.refl (c : B2buaCall) : Frame c c := ⟨rfl, rfl, rfl, rfl⟩

theorem Frame.same {c : B2buaCall} (h : Frame call.toB2buaCall c) :
    SameAttempts call (call.mapCall fun _ => c) :=
  ⟨congrArg (fun fo => fo.elim [] (·.candidates)) h.failover, rfl, rfl, h.stored, h.attempts, h.trunk⟩

section Operations

open B2bua

variable (U : RawSip.Lowering) (V : TextFields.Uppering) (c : B2buaCall) (branch localIp : List Char)
  (localPort : UInt16)

theorem frame_completeSessionRefresh (cseq : UInt32) :
    Frame c (completeSessionRefresh V c cseq branch localIp localPort).2 := by
  unfold completeSessionRefresh
  split
  next => exact Frame.refl c
  next =>
    split
    next => exact Frame.refl c
    next => exact ⟨rfl, rfl, rfl, rfl⟩

theorem frame_failSessionRefresh (now delayMs : Nat) (cseq : UInt32) (status : UInt16)
    (minSe422 : Option UInt32) (responseTo : List Char) :
    Frame c (failSessionRefresh U c now delayMs cseq status minSe422 responseTo).2 := by
  unfold failSessionRefresh
  split
  next => exact Frame.refl c
  next =>
    split
    next => exact Frame.refl c
    next =>
      dsimp only
      split
      next => exact ⟨rfl, rfl, rfl, rfl⟩
      next =>
        split
        next => exact ⟨rfl, rfl, rfl, rfl⟩
        next => exact ⟨rfl, rfl, rfl, rfl⟩

theorem frame_byeTowardCaller (reason : Option (List Char)) :
    Frame c (buildRelayByeTowardCaller V c branch localIp localPort reason).2 := by
  unfold buildRelayByeTowardCaller
  split
  next => exact Frame.refl c
  next => exact ⟨rfl, rfl, rfl, rfl⟩

theorem frame_byeTowardCallee (reason : Option (List Char)) :
    Frame c (buildRelayByeTowardCallee U V c branch localIp localPort reason).2 := by
  unfold buildRelayByeTowardCallee
  split
  next => exact Frame.refl c
  next => exact ⟨rfl, rfl, rfl, rfl⟩

theorem frame_refreshCall (now : Nat) :
    Frame c (refreshCall U V now branch localIp localPort c).2 := by
  unfold refreshCall
  split
  next =>
    split
    next => exact Frame.refl c
    next => exact ⟨rfl, rfl, rfl, rfl⟩
  next => exact Frame.refl c

end Operations

theorem hangupCallee_kind {branch : List Char} {reason : Option (List Char)} {kind : Kind} {raw : List Char}
    (h : hangupCallee cfg call branch reason = some (kind, raw)) : kind = .bye ∨ kind = .cancel := by
  unfold hangupCallee at h
  split at h
  next => cases h; exact .inl rfl
  next =>
    simp only [Option.bind_eq_some_iff, Option.map_eq_some_iff, Prod.mk.injEq] at h
    obtain ⟨_, -, _, -, rfl, -⟩ := h
    exact .inr rfl

theorem noInvites_hangup (outcome : CallOutcome) (branches : List Char × List Char) :
    NoInvites (hangupBothLegs cfg call outcome branches).2 := by
  unfold hangupBothLegs
  dsimp only
  split
  next kind raw dest transport hkind htarget =>
    rcases hangupCallee_kind hkind with rfl | rfl
    · exact noInvites_singleton rfl
    · exact noInvites_singleton rfl
  next => exact noInvites_nil

theorem noInvites_cancel (stored : List Char) : NoInvites (cancelPrevious cfg call stored) := by
  unfold cancelPrevious
  split
  next => exact noInvites_singleton rfl
  next => exact noInvites_nil

theorem noInvites_ackCalleeFinal (responseTo : List Char) :
    NoInvites (ackCalleeFinal cfg call responseTo) := by
  unfold ackCalleeFinal
  split
  next => exact noInvites_nil
  next => exact noInvites_map fun _ => rfl

theorem noInvites_ackForAnswered (branch : List Char) : NoInvites (ackForAnsweredCallee cfg call branch) := by
  unfold ackForAnsweredCallee
  split
  next => exact noInvites_singleton rfl
  next => exact noInvites_nil

theorem noInvites_stale (a : Arrival) (r : Response) (cseq : UInt32) (attempt : Option InviteAttempt) :
    NoInvites (handleStaleInviteResponse cfg a call r cseq attempt) := by
  cases attempt with
  | none => exact noInvites_nil
  | some attempt =>
      unfold handleStaleInviteResponse
      dsimp only
      split
      next => exact noInvites_nil
      next =>
        split
        next =>
          intro s hs
          simp only [ackAndByeAnsweredDialog, List.mem_cons, List.not_mem_nil, or_false] at hs
          rcases hs with rfl | rfl
          · rfl
          · rfl
        next => exact noInvites_map fun _ => rfl

end Frames

/-- Does a response get past the prelude, to the arms for its status? -/
def reachesArms (cfg : Config) (a : Arrival) (call : SetupCall) (r : Response) : Bool :=
  match responseCseq cfg.lower r with
  | none => true
  | some (cseq, method) =>
      TextScan.toAsciiLowercase method = "invite".toList ∧ isPendingRefresh call.toB2buaCall cseq = false ∧
        B2bua.refreshDuplicateAck cfg.lower cfg.upper call.toB2buaCall cseq r.status
          (r.toHeader.getD []) a.branches.1 cfg.sbcIp cfg.sbcPort = none ∧
        B2bua.classifyInviteResponse call.toB2buaCall (SipBuilder.topViaBranch cfg.lower r.text) cseq =
          .current

/-- What a failover meets, when an event may bring one about: an error of the
trunk for the live attempt, or no answer in time. After a ringing there is none. -/
def failoverLook (cfg : Config) (call : SetupCall) : CallEvent → Option (Nat → Scene)
  | .response a r =>
      if reachesArms cfg a call r ∧ isTrunkFailure r.status ∧
          call.failover.any fun fo => !fo.provisionalReceived
      then some a.look
      else none
  | .inviteTimeout look timeout =>
      if inviteTimedOut call.toB2buaCall (look (candidatesLeft call.toB2buaCall)).now timeout then some look
      else none
  | _ => none

/-- The call that a retry leaves, which ends when the INVITE was not sent again. -/
def keptOn (r : Retried) : Option SetupCall := if r.1 then some r.2.1 else none

/-- All that an event can do to a call in the map, as far as INVITEs go: nothing,
or one of the three ways to send it again, from a call with the same attempts.
`left` is the call that stays in the map, and `sent` what was sent. -/
inductive Resends (cfg : Config) (call : SetupCall) : CallEvent → Option SetupCall → List Sent → Prop
  | quiet {event : CallEvent} {after : SetupCall} {left : Option SetupCall} {sent : List Sent}
      (hsame : SameAttempts call after) (hleft : left = some after ∨ left = none) (hsent : NoInvites sent) :
      Resends cfg call event left sent
  | auth {a : Arrival} {r : Response} {from_ : SetupCall} {acks : List Sent}
      (harms : reachesArms cfg a call r = true) (hstatus : r.status = 407)
      (hsame : SameAttempts call from_) (hacks : NoInvites acks) :
      Resends cfg call (.response a r)
        (keptOn (handle407AuthRetry cfg (a.scene call) from_ r.text a.source))
        (acks ++ (handle407AuthRetry cfg (a.scene call) from_ r.text a.source).2.2)
  | interval {a : Arrival} {r : Response} {from_ : SetupCall} {acks : List Sent}
      (harms : reachesArms cfg a call r = true) (hstatus : r.status = 422)
      (hsame : SameAttempts call from_) (hacks : NoInvites acks) :
      Resends cfg call (.response a r)
        (keptOn (handle422SessionIntervalRetry cfg (a.scene call) from_ r.text a.source))
        (acks ++ (handle422SessionIntervalRetry cfg (a.scene call) from_ r.text a.source).2.2)
  | failover {event : CallEvent} (look : Nat → Scene) {from_ : SetupCall} {acks : List Sent}
      {left : Option SetupCall} (hlook : failoverLook cfg call event = some look)
      (hsame : SameAttempts call from_) (hacks : NoInvites acks)
      (hleft : left = some (failoverToNextTrunk cfg look from_).2.1 ∨ left = none) :
      Resends cfg call event left (acks ++ (failoverToNextTrunk cfg look from_).2.2)

section Handlers

variable {cfg : Config} {call : SetupCall}

theorem left_cases (fx : Effects) : fx.left = some fx.after ∨ fx.left = none := by
  unfold Effects.left
  split
  next => exact .inl rfl
  next => exact .inr rfl

/-- The attempts stay the same, and no INVITE is sent. -/
structure Quiet (call : SetupCall) (fx : Effects) : Prop where
  same : SameAttempts call fx.after
  sent : NoInvites fx.sent

theorem Quiet.unchanged (call : SetupCall) : Quiet call (unchanged call) :=
  ⟨SameAttempts.refl call, noInvites_nil⟩

theorem Resends.of_quiet {event : CallEvent} {fx : Effects} (h : Quiet call fx) :
    Resends cfg call event fx.left fx.sent := .quiet h.same (left_cases fx) h.sent

theorem left_retriedOr (status : UInt16) (raw : List Char) (r : Retried) :
    (retriedOr status raw r).left = keptOn r ∧ (retriedOr status raw r).sent = r.2.2 := by
  unfold retriedOr keptOn
  split
  next => exact ⟨rfl, rfl⟩
  next => exact ⟨rfl, rfl⟩

theorem take_cases {now : Nat} {id : TrunkId} {after : SetupCall}
    (h : takeNextFailoverCandidate call now = some (id, after)) :
    ∃ fo rest, call.failover = some fo ∧ fo.candidates = id :: rest ∧
      after = { call with failover := some { fo with
        candidates := rest, attempt := fo.attempt + 1, inviteSentAt := now } } := by
  unfold takeNextFailoverCandidate at h
  split at h
  next => cases h
  next fo hfo =>
    split at h
    next => cases h
    next =>
      split at h
      next => cases h
      next next_ rest hcandidates =>
        cases h
        exact ⟨fo, rest, hfo, hcandidates, rfl⟩

theorem open_of_take {now : Nat} {id : TrunkId} {after : SetupCall}
    (h : takeNextFailoverCandidate call now = some (id, after)) :
    (call.failover.any fun fo => !fo.provisionalReceived) = true := by
  unfold takeNextFailoverCandidate at h
  split at h
  next => cases h
  next fo hfo =>
    split at h
    next => cases h
    next hopen =>
      rw [hfo, Option.any_some, Bool.eq_false_of_not_eq_true hopen]
      rfl

/-- The candidate that is put back makes good for the one that was taken. -/
theorem same_putBack {now : Nat} {id : TrunkId} {after : SetupCall}
    (h : takeNextFailoverCandidate call now = some (id, after)) : SameAttempts call (putBack after id) := by
  obtain ⟨fo, rest, hfo, hcandidates, rfl⟩ := take_cases h
  refine ⟨?_, rfl, rfl, rfl, rfl, rfl⟩
  simp only [candidatesOf, putBack, hfo, Option.map_some, Option.elim_some, hcandidates]

theorem keptOn_cases (r : Retried) : keptOn r = some r.2.1 ∨ keptOn r = none := by
  unfold keptOn
  split
  next => exact .inl rfl
  next => exact .inr rfl

/-- All that `handle_response` can do with a response: it goes to the arms after
an ACK, it is the answer to a refresh, or it changes nothing. -/
inductive Handled (cfg : Config) (call : SetupCall) (a : Arrival) (r : Response) : Effects → Prop
  | arms (from_ : SetupCall) (acks : List Sent) (harms : reachesArms cfg a call r = true)
      (hfrom : from_ = call ∨ from_ = markCalleeResponded call) (hacks : NoInvites acks) :
      Handled cfg call a r { onStatus cfg a from_ r with sent := acks ++ (onStatus cfg a from_ r).sent }
  | refresh (cseq : UInt32) (harms : reachesArms cfg a call r = false)
      (hpending : isPendingRefresh call.toB2buaCall cseq = true) :
      Handled cfg call a r (handleRefreshResponse cfg a call r cseq)
  | apart (sent : List Sent) (harms : reachesArms cfg a call r = false) (hsent : NoInvites sent) :
      Handled cfg call a r ⟨call, sent, [], none⟩

variable (cfg call) in
theorem handled_response (a : Arrival) (r : Response) :
    Handled cfg call a r (handleResponse cfg a call r) := by
  unfold handleResponse
  split
  next hcseq =>
    have harms : reachesArms cfg a call r = true := by rw [reachesArms, hcseq]
    exact .arms call [] harms (.inl rfl) noInvites_nil
  next cseq method hcseq =>
    have harms : reachesArms cfg a call r = decide (TextScan.toAsciiLowercase method = "invite".toList ∧
        isPendingRefresh call.toB2buaCall cseq = false ∧
        B2bua.refreshDuplicateAck cfg.lower cfg.upper call.toB2buaCall cseq r.status
          (r.toHeader.getD []) a.branches.1 cfg.sbcIp cfg.sbcPort = none ∧
        B2bua.classifyInviteResponse call.toB2buaCall (SipBuilder.topViaBranch cfg.lower r.text) cseq =
          .current) := by rw [reachesArms, hcseq]
    split
    next hmethod => exact .apart [] (harms.trans (decide_eq_false fun h => hmethod h.1)) noInvites_nil
    next hmethod =>
      split
      next hpending =>
        refine .refresh cseq (harms.trans (decide_eq_false fun h => ?_)) hpending
        cases hpending.symm.trans h.2.1
      next hpending =>
        split
        next hduplicate =>
          refine .apart _ (harms.trans (decide_eq_false fun h => ?_)) (noInvites_map fun _ => rfl)
          cases hduplicate.symm.trans h.2.2.1
        next hduplicate =>
          split
          next hclass =>
            refine .apart _ (harms.trans (decide_eq_false fun h => ?_)) (noInvites_stale a r cseq _)
            cases hclass.symm.trans h.2.2.2
          next hclass =>
            have hacks : NoInvites (if 300 ≤ r.status then
                ackCalleeFinal cfg (markCalleeResponded call) (r.toHeader.getD []) else []) := by
              split
              next => exact noInvites_ackCalleeFinal _
              next => exact noInvites_nil
            exact .arms (markCalleeResponded call) _ (harms.trans (decide_eq_true
              ⟨not_not.mp hmethod, Bool.eq_false_of_not_eq_true hpending, hduplicate, hclass⟩))
              (.inr rfl) hacks

/-- The arms, when a response is handed on from a call with the same attempts
after what was sent for it before. -/
theorem resends_arms {a : Arrival} {r : Response} {from_ : SetupCall} {acks : List Sent}
    (harms : reachesArms cfg a call r = true) (hsame : SameAttempts call from_)
    (hfailover : from_.failover = call.failover) (hacks : NoInvites acks) :
    Resends cfg call (.response a r) (onStatus cfg a from_ r).left
      (acks ++ (onStatus cfg a from_ r).sent) := by
  have hscene : a.scene from_ = a.scene call := congrArg a.look (congrArg List.length hsame.candidates)
  have hquiet {fx : Effects} (h : SameAttempts from_ fx.after) (hsent : NoInvites fx.sent) :
      Resends cfg call (.response a r) fx.left (acks ++ fx.sent) :=
    .quiet (hsame.trans h) (left_cases fx) (hacks.append hsent)
  unfold onStatus
  split
  next => exact hquiet (same_onProvisional _ _) noInvites_nil
  next =>
    split
    next =>
      unfold onAnswer
      dsimp only
      split
      next =>
        exact hquiet (same_answered _ r) ((noInvites_ackForAnswered _).append (noInvites_hangup _ _))
      next => exact hquiet (same_answered _ r) noInvites_nil
    next =>
      split
      next h407 =>
        obtain ⟨hleft, hsent⟩ := left_retriedOr 503 unavailableText
          (handle407AuthRetry cfg (a.scene from_) from_ r.text a.source)
        rw [hleft, hsent, hscene]
        exact .auth harms h407 hsame hacks
      next =>
        split
        next h422 =>
          obtain ⟨hleft, hsent⟩ := left_retriedOr r.status r.text
            (handle422SessionIntervalRetry cfg (a.scene from_) from_ r.text a.source)
          rw [hleft, hsent, hscene]
          exact .interval harms h422 hsame hacks
        next =>
          unfold onError
          split
          next hfailure =>
            split
            next id after htake =>
              obtain ⟨hleft, hsent⟩ := left_retriedOr r.status r.text
                (failoverToNextTrunk cfg a.look (putBack after id))
              rw [hleft, hsent]
              have hopen := open_of_take htake
              rw [hfailover] at hopen
              exact .failover a.look (if_pos ⟨harms, hfailure, hopen⟩)
                (hsame.trans (same_putBack htake)) hacks (keptOn_cases _)
            next => exact hquiet (SameAttempts.refl from_) noInvites_nil
          next => exact hquiet (SameAttempts.refl from_) noInvites_nil

theorem quiet_refreshResponse (a : Arrival) (r : Response) (cseq : UInt32) :
    Quiet call (handleRefreshResponse cfg a call r cseq) := by
  unfold handleRefreshResponse
  split
  next => exact Quiet.unchanged call
  next =>
    split
    next => exact ⟨(frame_completeSessionRefresh _ _ _ _ _ _).same, noInvites_map fun _ => rfl⟩
    next =>
      dsimp only
      have hsame : SameAttempts call (call.mapCall fun _ => (B2bua.failSessionRefresh cfg.lower
          call.toB2buaCall (a.scene call).now a.delayMs cseq r.status
          (if r.status = 422 then InviteTexts.parseMinSe cfg.lower r.text else none)
          (r.toHeader.getD [])).2) :=
        (frame_failSessionRefresh _ _ _ _ _ _ _ _).same
      split
      next => exact ⟨hsame, noInvites_nil⟩
      next =>
        split
        next =>
          exact ⟨hsame.trans (frame_byeTowardCaller _ _ _ _ _ _).same, noInvites_map fun _ => rfl⟩
        next => exact ⟨hsame, noInvites_map fun _ => rfl⟩

theorem resends_handleResponse (a : Arrival) (r : Response) :
    Resends cfg call (.response a r) (handleResponse cfg a call r).left
      (handleResponse cfg a call r).sent := by
  have hhandled := handled_response cfg call a r
  generalize handleResponse cfg a call r = fx at hhandled ⊢
  cases hhandled with
  | arms from_ acks harms hfrom hacks =>
      rcases hfrom with rfl | rfl
      · exact resends_arms harms (SameAttempts.refl _) rfl hacks
      · exact resends_arms harms ⟨rfl, rfl, rfl, rfl, rfl, rfl⟩ rfl hacks
  | refresh cseq harms hpending => exact .of_quiet (quiet_refreshResponse a r cseq)
  | apart sent harms hsent => exact .quiet (SameAttempts.refl call) (.inl rfl) hsent

theorem quiet_endBy (outcome : CallOutcome) (branches : List Char × List Char) :
    Quiet call (endBy cfg call outcome branches) :=
  ⟨SameAttempts.refl call, noInvites_hangup outcome branches⟩

theorem quiet_onBye (byCaller : Bool) (reason : Option (List Char)) (relayed branch : List Char) :
    Quiet call (onBye cfg call byCaller reason relayed branch) := by
  have hbye : SameAttempts call (handleBye call) := ⟨rfl, rfl, rfl, rfl, rfl, rfl⟩
  have hreason (c : SetupCall) : SameAttempts c (setPeerReason c reason) := ⟨rfl, rfl, rfl, rfl, rfl, rfl⟩
  unfold onBye
  dsimp only
  split
  next =>
    split
    next => exact ⟨hbye.trans (hreason _), noInvites_nil⟩
    next =>
      exact ⟨(hbye.trans (frame_byeTowardCallee _ _ _ _ _ _ _).same).trans (hreason _),
        noInvites_singleton rfl⟩
  next =>
    exact ⟨(hbye.trans (frame_byeTowardCaller _ _ _ _ _ _).same).trans (hreason _), noInvites_nil⟩

theorem quiet_onCancel (request : CancelRequest) : Quiet call (onCancel cfg call request) := by
  unfold onCancel
  split
  next => exact Quiet.unchanged call
  next =>
    refine ⟨⟨rfl, rfl, rfl, rfl, rfl, rfl⟩, ?_⟩
    dsimp only
    split
    next => exact noInvites_map fun _ => rfl
    next => exact noInvites_nil

theorem quiet_onClosed (peer : SocketAddr) (branch : List Char) :
    Quiet call (onClosed cfg call peer branch) := by
  unfold onClosed
  dsimp only
  split
  next =>
    split
    next =>
      refine ⟨SameAttempts.refl call, ?_⟩
      dsimp only
      split
      next kind raw dest hkind hdest =>
        rcases hangupCallee_kind hkind with rfl | rfl
        · exact noInvites_singleton rfl
        · exact noInvites_singleton rfl
      next => exact noInvites_nil
    next => exact ⟨SameAttempts.refl call, noInvites_nil⟩
  next => exact Quiet.unchanged call

/-- Only a response and a timeout of the INVITE can bring about another one. -/
def mayInvite : CallEvent → Bool
  | .response _ _ | .inviteTimeout _ _ => true
  | _ => false

variable (cfg call) in
theorem quiet_onEvent {event : CallEvent} (h : mayInvite event = false) : Quiet call (onEvent cfg call event) := by
  cases event with
  | response a r => cases h
  | inviteTimeout look timeout => cases h
  | ack request draw => exact ⟨same_handleAck, noInvites_map fun _ => rfl⟩
  | bye byCaller reason relayed branch => exact quiet_onBye byCaller reason relayed branch
  | cancel request => exact quiet_onCancel request
  | setupTimeout now limit branches =>
      dsimp only [onEvent]
      split
      next => exact quiet_endBy .setupTimeout branches
      next => exact Quiet.unchanged call
  | rtpTimeout branches =>
      dsimp only [onEvent]
      split
      next => exact quiet_endBy .rtpTimeout branches
      next => exact Quiet.unchanged call
  | hangup trigger branches => exact quiet_endBy trigger.outcome branches
  | closed peer branch => exact quiet_onClosed peer branch
  | refresh now branch => exact ⟨(frame_refreshCall _ _ _ _ _ _ _).same, noInvites_map fun _ => rfl⟩

variable (cfg call) in
/-- The step lemma that every result about the INVITEs of a call goes through. -/
theorem resends_onEvent (event : CallEvent) :
    Resends cfg call event (onEvent cfg call event).left (onEvent cfg call event).sent := by
  cases hevent : mayInvite event with
  | false => exact .of_quiet (quiet_onEvent cfg call hevent)
  | true =>
      cases event with
      | response a r => exact resends_handleResponse a r
      | inviteTimeout look timeout =>
          dsimp only [onEvent, onInviteTimeout]
          split
          next hdue =>
            have h : Resends cfg call (.inviteTimeout look timeout)
                (some (failoverToNextTrunk cfg look call).2.1)
                ([] ++ (failoverToNextTrunk cfg look call).2.2) :=
              .failover look (if_pos hdue.1) (SameAttempts.refl call) noInvites_nil (.inl rfl)
            exact h
          next => exact .of_quiet (Quiet.unchanged call)
      | _ => cases hevent

end Handlers

end NixiSbc.RetrySteps
