import NixiSbc.FailoverSteps

namespace NixiSbc.CallerFinals

open Stun TextFields TextWords SipBuilder CallSetup InviteTexts InviteRetries Teardown ResponseHandler CallHandlers
open RetrySteps FailoverSteps
open B2bua (B2buaCall CallLeg dialogInfoTowardCaller)
open Trunks (TrunkId)

/-- The final statuses among what goes to the caller. -/
def finalsOf (toCaller : List ToCaller) : List UInt16 := toCaller.filterMap ToCaller.final

theorem finalsOf_cons (m : ToCaller) (toCaller : List ToCaller) :
    finalsOf (m :: toCaller) = finalsOf [m] ++ finalsOf toCaller :=
  List.filterMap_append (f := ToCaller.final) (l := [m])

/-- All that a final for the caller's INVITE is made of is known. -/
def finalKnown (call : SetupCall) : Bool :=
  call.callerOriginalVias ≠ [] && call.inbound.fromRaw.isSome && call.callerToRaw.isSome &&
    call.callerInviteCseq.isSome

/-- Nothing that concerns the answer of the caller's INVITE has changed. -/
structure Aside (call after : SetupCall) : Prop where
  answered : after.answeredAt = call.answeredAt
  toRaw : after.inbound.toRaw = call.inbound.toRaw
  established : after.outbound.map CallLeg.established = call.outbound.map CallLeg.established
  timer : call.sessionTimer = none → after.sessionTimer = none
  known : finalKnown after = finalKnown call

theorem Aside.refl (call : SetupCall) : Aside call call := ⟨rfl, rfl, rfl, fun h => h, rfl⟩

theorem Aside.trans {a b c : SetupCall} (h : Aside a b) (h' : Aside b c) : Aside a c :=
  ⟨h'.answered.trans h.answered, h'.toRaw.trans h.toRaw, h'.established.trans h.established,
    fun hnone => h'.timer (h.timer hnone), h'.known.trans h.known⟩

section Frames

variable {cfg : Config} {call : SetupCall}

theorem aside_onProvisional (now : Nat) (status : UInt16) : Aside call (onProvisional call now status) := by
  unfold onProvisional
  split
  next => exact ⟨rfl, rfl, rfl, fun h => h, rfl⟩
  next => exact ⟨rfl, rfl, rfl, fun h => h, rfl⟩

theorem aside_handleAck : Aside call (handleAck call) := by
  rw [handleAck_eq]
  exact ⟨rfl, rfl, rfl, fun h => h, rfl⟩

/-- The same of an operation on the two legs. -/
structure LegsAside (c c' : B2buaCall) : Prop where
  fromRaw : c'.inbound.fromRaw = c.inbound.fromRaw
  toRaw : c'.inbound.toRaw = c.inbound.toRaw
  established : c'.outbound.map CallLeg.established = c.outbound.map CallLeg.established
  timer : c.sessionTimer = none → c'.sessionTimer = none

theorem LegsAside.refl (c : B2buaCall) : LegsAside c c := ⟨rfl, rfl, rfl, fun h => h⟩

theorem LegsAside.aside {c : B2buaCall} (h : LegsAside call.toB2buaCall c) :
    Aside call (call.mapCall fun _ => c) := by
  refine ⟨rfl, h.toRaw, h.established, h.timer, ?_⟩
  unfold finalKnown
  change (_ && c.inbound.fromRaw.isSome && _ && _) = _
  rw [h.fromRaw]
  rfl

section Operations

open B2bua

variable (U : RawSip.Lowering) (V : Uppering) (c : B2buaCall) (branch localIp : List Char) (localPort : UInt16)

theorem legs_setLegCseq (cseq : UInt32) : LegsAside c (setLegCseq c cseq) := by
  refine ⟨rfl, rfl, ?_, fun h => h⟩
  unfold setLegCseq
  rw [Option.map_map]
  rfl

theorem legs_completeSessionRefresh (cseq : UInt32) :
    LegsAside c (completeSessionRefresh V c cseq branch localIp localPort).2 := by
  unfold completeSessionRefresh
  split
  next => exact LegsAside.refl c
  next st hst =>
    split
    next => exact LegsAside.refl c
    next => exact ⟨rfl, rfl, rfl, fun h => absurd (hst.symm.trans h) (Option.some_ne_none st)⟩

theorem legs_failSessionRefresh (now delayMs : Nat) (cseq : UInt32) (status : UInt16)
    (minSe422 : Option UInt32) (responseTo : List Char) :
    LegsAside c (failSessionRefresh U c now delayMs cseq status minSe422 responseTo).2 := by
  unfold failSessionRefresh
  split
  next => exact LegsAside.refl c
  next st hst =>
    have hsome (h : c.sessionTimer = none) : False := Option.some_ne_none st (hst.symm.trans h)
    split
    next => exact LegsAside.refl c
    next =>
      dsimp only
      split
      next => exact ⟨rfl, rfl, rfl, fun h => (hsome h).elim⟩
      next =>
        split
        next => exact ⟨rfl, rfl, rfl, fun h => (hsome h).elim⟩
        next => exact ⟨rfl, rfl, rfl, fun h => (hsome h).elim⟩

theorem legs_byeTowardCaller (reason : Option (List Char)) :
    LegsAside c (buildRelayByeTowardCaller V c branch localIp localPort reason).2 := by
  unfold buildRelayByeTowardCaller
  split
  next => exact LegsAside.refl c
  next => exact ⟨rfl, rfl, rfl, fun h => h⟩

theorem legs_refreshCall (now : Nat) : LegsAside c (refreshCall U V now branch localIp localPort c).2 := by
  unfold refreshCall
  split
  next st d sdp _ hst _ _ =>
    split
    next => exact LegsAside.refl c
    next =>
      have hlegs := legs_setLegCseq c (nextOutboundCseq U c)
      exact ⟨hlegs.fromRaw, hlegs.toRaw, hlegs.established,
        fun h => absurd (hst.symm.trans h) (Option.some_ne_none _)⟩
  next => exact LegsAside.refl c

end Operations

theorem aside_switchTrunk (now : Nat) (raw : List Char) (trunk : OutboundTrunk) (dest : SocketAddr) :
    Aside call (switchTrunk cfg call now raw trunk dest) := by
  refine ⟨rfl, rfl, ?_, fun h => h, rfl⟩
  change (call.outbound.map _).map CallLeg.established = _
  rw [Option.map_map]
  rfl

theorem aside_take {now : Nat} {id : TrunkId} {after : SetupCall}
    (h : takeNextFailoverCandidate call now = some (id, after)) : Aside call after := by
  obtain ⟨fo, rest, -, -, rfl⟩ := take_cases h
  exact ⟨rfl, rfl, rfl, fun h => h, rfl⟩

theorem aside_putBack {now : Nat} {id : TrunkId} {after : SetupCall}
    (h : takeNextFailoverCandidate call now = some (id, after)) : Aside call (putBack after id) := by
  have htake := aside_take h
  exact ⟨htake.answered, htake.toRaw, htake.established, htake.timer, htake.known⟩

theorem aside_failsOver {look : Nat → Scene} {r : Retried} (h : FailsOver cfg look call r) :
    Aside call r.2.1 := by
  induction h with
  | exhausted htake => exact Aside.refl _
  | passed htake hselectable hrest ih => exact (aside_take htake).trans ih
  | unstored htake => exact aside_take htake
  | unreadable htake => exact aside_take htake
  | taken htake => exact (aside_take htake).trans (aside_switchTrunk _ _ _ _)
  | untaken htake hselectable hstored hinvite hrest ih => exact (aside_take htake).trans ih

variable (cfg call) in
theorem aside_failover (look : Nat → Scene) : Aside call (failoverToNextTrunk cfg look call).2.1 :=
  aside_failsOver (failsOver_nextTrunk cfg call look)

theorem aside_407 (scene : Scene) (response : List Char) (source : SocketAddr) :
    Aside call (handle407AuthRetry cfg scene call response source).2.1 := by
  unfold handle407AuthRetry
  split
  next => exact Aside.refl call
  next =>
    dsimp only
    split
    next => exact ⟨rfl, rfl, rfl, fun h => h, rfl⟩
    next => exact Aside.refl call

theorem aside_422 (scene : Scene) (response : List Char) (source : SocketAddr) :
    Aside call (handle422SessionIntervalRetry cfg scene call response source).2.1 := by
  unfold handle422SessionIntervalRetry
  split
  next => exact Aside.refl call
  next =>
    dsimp only
    split
    next => exact ⟨rfl, rfl, rfl, fun h => h, rfl⟩
    next => exact Aside.refl call

end Frames

/-- The dialog with the caller is known, so that it can be hung up with a BYE. -/
def dialogKnown (call : SetupCall) : Bool := call.inbound.toRaw.isSome && call.inbound.fromRaw.isSome

theorem finals_response {code : UInt16} (raw : List Char) (h : 200 ≤ code) :
    finalsOf [.response code raw] = [code] := by
  have hfinal : (ToCaller.response code raw).final = some code := if_neg (UInt16.not_lt.mpr h)
  rw [finalsOf, List.filterMap_cons_some hfinal]
  rfl

section Hangups

variable {cfg : Config} {call : SetupCall}

variable (cfg call) in
theorem finalTowardCaller_isSome (code : UInt16) (reason : Option (List Char)) :
    (finalTowardCaller cfg call code reason).isSome = finalKnown call := by
  unfold finalTowardCaller finalKnown
  split
  next hnone => simp [hnone]
  next hvias =>
    cases call.inbound.fromRaw with
    | none => simp
    | some fromRaw =>
        cases call.callerToRaw with
        | none => simp
        | some toRaw =>
            cases call.callerInviteCseq with
            | none => simp
            | some cseq => simp [hvias]

variable (cfg call) in
theorem dialogInfo_isSome :
    (dialogInfoTowardCaller call.toB2buaCall cfg.sbcIp cfg.sbcPort).isSome = dialogKnown call := by
  unfold dialogInfoTowardCaller dialogKnown
  cases call.inbound.toRaw with
  | none => rfl
  | some toRaw =>
      cases call.inbound.fromRaw with
      | none => rfl
      | some fromRaw => rfl

variable (cfg call) in
/-- The finals of a hangup: one only when there is no dialog and it can be made. -/
theorem finals_hangupCaller (branch : List Char) {code : UInt16} (hcode : 200 ≤ code)
    (reason : Option (List Char)) :
    finalsOf (hangupCaller cfg call branch code reason).toList =
      if dialogKnown call then [] else if finalKnown call then [code] else [] := by
  have hdialog := dialogInfo_isSome cfg call
  have hfinal := finalTowardCaller_isSome cfg call code reason
  unfold hangupCaller
  split
  next d hd =>
    rw [hd] at hdialog
    rw [← hdialog]
    rfl
  next hd =>
    rw [hd] at hdialog
    rw [← hdialog, ← hfinal]
    cases finalTowardCaller cfg call code reason with
    | none => rfl
    | some raw =>
        exact finals_response raw hcode

end Hangups

/-- What holds of a call in the map: its INVITE was sent on, a dialog and a
session timer come with the answer, and the answer is noted on its leg. -/
structure Shape (call : SetupCall) : Prop where
  attached : call.outbound.isSome = true
  pending : call.answeredAt = none → call.inbound.toRaw = none ∧ call.sessionTimer = none
  answered : call.answeredAt.isSome = true → outboundEstablished call.toB2buaCall = true

theorem outboundEstablished_eq (call : B2buaCall) :
    outboundEstablished call = (call.outbound.map CallLeg.established).any id := by
  unfold outboundEstablished
  cases call.outbound with
  | none => rfl
  | some leg => rfl

theorem Shape.aside {call after : SetupCall} (h : Shape call) (haside : Aside call after) : Shape after where
  attached := by
    rw [← Option.isSome_map (f := CallLeg.established), haside.established, Option.isSome_map]
    exact h.attached
  pending := by
    intro hnone
    rw [haside.answered] at hnone
    obtain ⟨htoRaw, htimer⟩ := h.pending hnone
    exact ⟨haside.toRaw.trans htoRaw, haside.timer htimer⟩
  answered := by
    intro hsome
    rw [outboundEstablished_eq, haside.established, ← outboundEstablished_eq]
    exact h.answered (haside.answered ▸ hsome)

/-- The dialog is known once this answer is in. -/
def dialogKnownBy (call : SetupCall) (r : Response) : Bool :=
  (call.inbound.toRaw.isSome || r.fromHeader.isSome && r.toHeader.isSome) && call.inbound.fromRaw.isSome

/-- A hangup tells the caller what the record says: an unanswered INVITE gets
its final, an answered one no other. -/
def tellable (call : SetupCall) : Bool :=
  if call.answeredAt.isSome then dialogKnown call || !finalKnown call else finalKnown call

/-- The 487 goes to the caller. -/
def gets487 (call : SetupCall) (request : CancelRequest) : Bool :=
  request.source = call.callerSource ∧ request.transport = call.callerTransport ∧ request.response487.isSome

def isProvisional (status : UInt16) : Bool := 100 ≤ status ∧ status ≤ 199

def isSuccess (status : UInt16) : Bool := 200 ≤ status ∧ status ≤ 299

/-- The caller is told of an event as it should be. -/
def Told (cfg : Config) (call : SetupCall) : CallEvent → Prop
  | .response a r => reachesArms cfg a call r = true → isProvisional r.status = false →
      if isSuccess r.status then
        (call.mediaSessionId.isSome && a.relayFails) = true → (dialogKnownBy call r || !finalKnown call) = true
      else call.answeredAt = none ∧ 300 ≤ r.status
  | .cancel request => (pastCancel call || gets487 call request) = true
  | .setupTimeout now limit _ => setupTimedOut call now limit = true → tellable call = true
  | .rtpTimeout _ => relayRan call = true → tellable call = true
  | .hangup _ _ => tellable call = true
  | .closed peer _ => affectedBy call peer = true → call.callerSource ≠ peer → tellable call = true
  | _ => True

/-- The caller goes away by itself. -/
def leaves (call : SetupCall) : CallEvent → Bool
  | .bye _ _ _ _ => true
  | .closed peer _ => call.callerSource = peer
  | _ => false

/-- What the caller hears of an event, of which it is told as it should be. -/
inductive Spoke (cfg : Config) (call : SetupCall) (event : CallEvent) (fx : Effects) : Prop
  | quiet (haside : Aside call fx.after) (hended : fx.ended = none) (hfinals : finalsOf fx.toCaller = [])
  | answer (a : Arrival) (r : Response) (hevent : event = .response a r)
      (harms : reachesArms cfg a call r = true) (hsuccess : isSuccess r.status = true)
      (hanswered : fx.after.answeredAt.isSome = true) (hshape : Shape fx.after)
      (hfinals : finalsOf fx.toCaller = [r.status])
  | hungUp (hanswered : call.answeredAt.isSome = true) (hafter : fx.after.answeredAt = call.answeredAt)
      (hended : fx.ended.isSome = true) (hfinals : finalsOf fx.toCaller = [])
  | refused (outcome : CallOutcome) (code : UInt16) (hpending : call.answeredAt = none)
      (hafter : fx.after.answeredAt = none) (hended : fx.ended = some outcome)
      (hcode : outcome.sipCode false = some code) (hfinals : finalsOf fx.toCaller = [code])
  | silent (outcome : CallOutcome) (hleaves : leaves call event = true) (hpending : call.answeredAt = none)
      (hafter : fx.after.answeredAt = none) (hended : fx.ended = some outcome)
      (hcode : outcome.sipCode false = none) (hfinals : finalsOf fx.toCaller = [])

section Responses

variable {cfg : Config} {call : SetupCall} {event : CallEvent}

theorem statusCodeOf_text (r : Response) : statusCodeOf r.text = some r.status := by
  have hword : IsWord "SIP/2.0".toList := ⟨by decide, not_blank_of_all (by decide)⟩
  have htext : ∃ rest, r.text = "SIP/2.0".toList ++ ' ' :: (showNat r.status.toNat ++ ' ' :: rest) := by
    refine ⟨r.reason ++ crlf ++ r.headers.flatMap (· ++ crlf) ++ crlf ++ r.body, ?_⟩
    unfold Response.text
    simp only [List.append_assoc, List.cons_append]
    rfl
  obtain ⟨rest, htext⟩ := htext
  rw [statusCodeOf, htext, words_cons hword, words_cons (isWord_showNat _)]
  change (parseUnsigned 16 (showNat r.status.toNat)).map _ = _
  rw [parseUnsigned_showNat r.status.toNat_lt, Option.map_some]
  exact congrArg some UInt16.ofNat_toNat

theorem statusCodeOf_unavailable : statusCodeOf unavailableText = some 503 := by decide +kernel

theorem finals_relay {status : UInt16} (h : 200 ≤ status) : finalsOf [.relay status] = [status] := by
  have hfinal : (ToCaller.relay status).final = some status := if_neg (UInt16.not_lt.mpr h)
  rw [finalsOf, List.filterMap_cons_some hfinal]
  rfl

theorem finals_provisional {status : UInt16} (h : status ≤ 199) : finalsOf [.relay status] = [] := by
  have hfinal : (ToCaller.relay status).final = none := if_pos (UInt16.lt_of_le_of_lt h (by decide))
  rw [finalsOf, List.filterMap_cons_none hfinal]
  rfl

/-- An error goes to the caller unless the INVITE was sent again. -/
theorem spoke_retriedOr {status : UInt16} {raw : List Char} {retried : Retried} (sent : List Sent)
    (haside : Aside call retried.2.1) (hpending : call.answeredAt = none) (hstatus : 200 ≤ status)
    (hraw : statusCodeOf raw = some status) :
    Spoke cfg call event { retriedOr status raw retried with sent := sent } := by
  unfold retriedOr
  split
  next => exact .quiet haside rfl rfl
  next =>
    refine .refused (.rejected status) status hpending (haside.answered.trans hpending) ?_ rfl
      (finals_relay hstatus)
    change some (CallOutcome.rejected ((statusCodeOf raw).getD 500)) = _
    rw [hraw, Option.getD_some]

theorem spoke_error {a : Arrival} {r : Response} {from_ : SetupCall} (sent : List Sent)
    (haside : Aside call from_) (hpending : call.answeredAt = none) (hstatus : 300 ≤ r.status) :
    Spoke cfg call event { onError cfg a from_ r with sent := sent } := by
  have hfinal : 200 ≤ r.status := UInt16.le_trans (by decide) hstatus
  have hrelay {from_ : SetupCall} (haside : Aside call from_) :
      Spoke cfg call event { retriedOr r.status r.text (false, from_, []) with sent := sent } :=
    spoke_retriedOr sent haside hpending hfinal (statusCodeOf_text r)
  unfold onError
  split
  next =>
    split
    next id after htake =>
      exact spoke_retriedOr sent ((haside.trans (aside_putBack htake)).trans (aside_failover cfg _ a.look))
        hpending hfinal (statusCodeOf_text r)
    next => exact hrelay haside
  next => exact hrelay haside

section Answer

variable {now : Nat} {r : Response}

theorem answeredAt_answered : (answered cfg call now r).answeredAt.isSome = true := by
  have hstamp : (call.answeredAt <|> some now).isSome = true := by
    cases call.answeredAt with
    | none => rfl
    | some at_ => rfl
  unfold answered armSessionTimer
  dsimp only
  split
  next => split <;> exact hstamp
  next => split <;> exact hstamp

variable (cfg now r) in
theorem outbound_answered (h : call.outbound.isSome = true) :
    ∃ leg, (answered cfg call now r).outbound = some leg ∧ leg.established = true := by
  obtain ⟨leg, hleg⟩ := Option.isSome_iff_exists.mp h
  unfold answered armSessionTimer handle200Ok establishOutbound setEstablishedDialog
  dsimp only
  rw [hleg]
  split
  next => split <;> exact ⟨_, rfl, rfl⟩
  next => split <;> exact ⟨_, rfl, rfl⟩

theorem shape_answered (h : call.outbound.isSome = true) : Shape (answered cfg call now r) := by
  have hanswered : (answered cfg call now r).answeredAt.isSome = true := answeredAt_answered
  obtain ⟨leg, hleg, hestablished⟩ := outbound_answered cfg now r h
  refine ⟨?_, ?_, fun _ => ?_⟩
  · rw [hleg]
    rfl
  · intro hnone
    rw [hnone] at hanswered
    cases hanswered
  · rw [outboundEstablished, hleg]
    exact hestablished

theorem inbound_armSessionTimer (response : List Char) :
    (armSessionTimer cfg call now response).inbound = call.inbound := by
  unfold armSessionTimer
  split
  next => rfl
  next => rfl

theorem dialogKnown_answered : dialogKnown (answered cfg call now r) = dialogKnownBy call r := by
  unfold answered dialogKnown dialogKnownBy
  dsimp only
  rw [inbound_armSessionTimer]
  cases r.fromHeader with
  | none => rw [Option.isSome_none, Bool.false_and, Bool.or_false]; rfl
  | some fromRaw =>
      cases r.toHeader with
      | none => rw [Option.isSome_none, Bool.and_false, Bool.or_false]; rfl
      | some toRaw => rw [Option.isSome_some, Option.isSome_some, Bool.and_true, Bool.or_true]; rfl

theorem finalKnown_answered : finalKnown (answered cfg call now r) = finalKnown call := by
  unfold answered armSessionTimer
  dsimp only
  split
  next => split <;> rfl
  next => split <;> rfl

end Answer

theorem spoke_answer {a : Arrival} {r : Response} {from_ : SetupCall} (sent : List Sent)
    (hattached : from_.outbound.isSome = true) (harms : reachesArms cfg a call r = true)
    (hsuccess : isSuccess r.status = true)
    (htold : (from_.mediaSessionId.isSome && a.relayFails) = true →
      (dialogKnownBy from_ r || !finalKnown from_) = true) :
    Spoke cfg call (.response a r) { onAnswer cfg a from_ r with sent := sent } := by
  have hstatus : 200 ≤ r.status := (of_decide_eq_true hsuccess).1
  have hmedia : (answered cfg from_ (a.scene from_).now r).mediaSessionId = from_.mediaSessionId := by
    unfold answered armSessionTimer
    dsimp only
    split
    next => split <;> rfl
    next => split <;> rfl
  unfold onAnswer
  dsimp only
  split
  next hfails =>
    refine .answer a r rfl harms hsuccess answeredAt_answered (shape_answered hattached) ?_
    rw [hmedia] at hfails
    have htold := htold hfails
    have hhangup : finalsOf (hangupBothLegs cfg (answered cfg from_ (a.scene from_).now r) .mediaUnavailable
        a.branches).1 = [] := by
      rw [hangupBothLegs, finals_hangupCaller _ _ _ (by decide), dialogKnown_answered, finalKnown_answered]
      cases hknown : dialogKnownBy from_ r with
      | true => rfl
      | false =>
          rw [hknown, Bool.false_or, Bool.not_eq_true_eq_eq_false] at htold
          rw [htold]
          rfl
    rw [finalsOf_cons, finals_relay hstatus, hhangup]
    rfl
  next =>
    exact .answer a r rfl harms hsuccess answeredAt_answered (shape_answered hattached)
      (finals_relay hstatus)

theorem spoke_arms {a : Arrival} {r : Response} {from_ : SetupCall} (sent : List Sent)
    (hshape : Shape call) (haside : Aside call from_) (hmedia : from_.mediaSessionId = call.mediaSessionId)
    (hknown : dialogKnownBy from_ r = dialogKnownBy call r) (harms : reachesArms cfg a call r = true)
    (htold : Told cfg call (.response a r)) :
    Spoke cfg call (.response a r) { onStatus cfg a from_ r with sent := sent } := by
  have htold := htold harms
  unfold onStatus
  split
  next hprovisional =>
    exact .quiet (haside.trans (aside_onProvisional _ _)) rfl (finals_provisional hprovisional.2)
  next hprovisional =>
    have htold := htold (decide_eq_false hprovisional)
    split
    next hsuccess =>
      have hsuccess : isSuccess r.status = true := decide_eq_true hsuccess
      rw [if_pos hsuccess, ← hmedia, ← hknown, ← haside.known] at htold
      exact spoke_answer sent (hshape.aside haside).attached harms hsuccess htold
    next hsuccess =>
      have hno : ¬ isSuccess r.status = true := fun h => hsuccess (of_decide_eq_true h)
      rw [if_neg hno] at htold
      obtain ⟨hpending, hstatus⟩ := htold
      have hstatus' : 200 ≤ r.status := UInt16.le_trans (by decide) hstatus
      split
      next =>
        exact spoke_retriedOr sent (haside.trans (aside_407 _ _ _)) hpending (by decide) statusCodeOf_unavailable
      next =>
        split
        next =>
          exact spoke_retriedOr sent (haside.trans (aside_422 _ _ _)) hpending hstatus' (statusCodeOf_text r)
        next => exact spoke_error sent haside hpending hstatus

theorem spoke_lostDialog {from_ : SetupCall} (hanswered : call.answeredAt.isSome = true)
    (haside : Aside call from_) (status : UInt16) (branch : List Char) (sent : List Sent) :
    Spoke cfg call event (teardownLostDialog cfg from_ status branch sent) := by
  refine .hungUp hanswered ?_ rfl ?_
  · exact (haside.trans (legs_byeTowardCaller _ _ _ _ _ _).aside).answered
  · unfold teardownLostDialog
    dsimp only
    cases (B2bua.buildRelayByeTowardCaller cfg.upper from_.toB2buaCall branch cfg.sbcIp cfg.sbcPort
      (CallOutcome.dialogLost status).reasonHeader).1 with
    | none => rfl
    | some raw => rfl

theorem spoke_refreshResponse {a : Arrival} {r : Response} {cseq : UInt32} (hshape : Shape call)
    (hpending : isPendingRefresh call.toB2buaCall cseq = true) :
    Spoke cfg call event (handleRefreshResponse cfg a call r cseq) := by
  have hanswered : call.answeredAt.isSome = true := by
    -- only an answered call has a timer to refresh
    by_contra hnone
    rw [Bool.not_eq_true, Option.isSome_eq_false_iff, Option.isNone_iff_eq_none] at hnone
    rw [isPendingRefresh, (hshape.pending hnone).2] at hpending
    cases hpending
  unfold handleRefreshResponse
  split
  next => exact .quiet (Aside.refl call) rfl rfl
  next =>
    split
    next =>
      dsimp only
      exact .quiet (legs_completeSessionRefresh _ _ _ _ _ _).aside rfl rfl
    next =>
      dsimp only
      have haside : Aside call (call.mapCall fun _ => (B2bua.failSessionRefresh cfg.lower
          call.toB2buaCall (a.scene call).now a.delayMs cseq r.status
          (if r.status = 422 then parseMinSe cfg.lower r.text else none) (r.toHeader.getD [])).2) :=
        (legs_failSessionRefresh _ _ _ _ _ _ _ _).aside
      split
      next => exact .quiet haside rfl rfl
      next =>
        split
        next => exact spoke_lostDialog hanswered haside _ _ _
        next => exact .quiet haside rfl rfl

theorem spoke_handleResponse {a : Arrival} {r : Response} (hshape : Shape call)
    (htold : Told cfg call (.response a r)) :
    Spoke cfg call (.response a r) (handleResponse cfg a call r) := by
  have hhandled := handled_response cfg call a r
  generalize handleResponse cfg a call r = fx at hhandled ⊢
  cases hhandled with
  | arms from_ acks harms hfrom hacks =>
      rcases hfrom with rfl | rfl
      · exact spoke_arms _ hshape (Aside.refl _) rfl rfl harms htold
      · exact spoke_arms _ hshape ⟨rfl, rfl, rfl, fun h => h, rfl⟩ rfl rfl harms htold
  | refresh cseq harms hpending => exact spoke_refreshResponse hshape hpending
  | apart sent harms hsent => exact .quiet (Aside.refl call) rfl rfl

end Responses

section Ends

variable {cfg : Config} {call : SetupCall} {event : CallEvent}

theorem pendingCallerCode_final (outcome : CallOutcome) : 200 ≤ outcome.pendingCallerCode := by
  unfold CallOutcome.pendingCallerCode
  split
  next => decide
  next => decide
  next => decide
  next => decide

/-- A hangup by the SBC, when the code that it sends is the one on record. -/
theorem spoke_endBy (outcome : CallOutcome) (hshape : Shape call) (htold : tellable call = true)
    (hcode : call.answeredAt = none → outcome.sipCode false = some outcome.pendingCallerCode)
    (branches : List Char × List Char) :
    Spoke cfg call event (endBy cfg call outcome branches) := by
  have hfinals := finals_hangupCaller cfg call branches.1 (pendingCallerCode_final outcome)
    outcome.reasonHeader
  unfold tellable at htold
  cases hanswered : call.answeredAt with
  | none =>
      rw [hanswered, if_neg (by decide)] at htold
      have hdialog : dialogKnown call = false := by rw [dialogKnown, (hshape.pending hanswered).1]; rfl
      rw [hdialog, if_neg (by decide), if_pos htold] at hfinals
      exact .refused outcome outcome.pendingCallerCode hanswered hanswered rfl (hcode hanswered) hfinals
  | some at_ =>
      rw [hanswered, if_pos (by rfl)] at htold
      refine .hungUp (by rw [hanswered]; rfl) rfl rfl (hfinals.trans ?_)
      cases hdialog : dialogKnown call with
      | true => rfl
      | false =>
          rw [hdialog, Bool.false_or] at htold
          rw [if_neg (by decide), if_neg]
          intro hknown
          rw [hknown] at htold
          cases htold

theorem spoke_onBye (byCaller : Bool) (reason : Option (List Char)) (relayed branch : List Char) :
    Spoke cfg call (.bye byCaller reason relayed branch) (onBye cfg call byCaller reason relayed branch) := by
  have hend {fx : Effects} (hafter : fx.after.answeredAt = call.answeredAt)
      (hended : fx.ended = some (.normalClearing byCaller)) (hfinals : finalsOf fx.toCaller = []) :
      Spoke cfg call (.bye byCaller reason relayed branch) fx := by
    cases hanswered : call.answeredAt with
    | none => exact .silent _ rfl hanswered (hafter.trans hanswered) hended rfl hfinals
    | some at_ => exact .hungUp (by rw [hanswered]; rfl) hafter (by rw [hended]; rfl) hfinals
  unfold onBye
  dsimp only
  split
  next =>
    split
    next => exact hend rfl rfl rfl
    next => exact hend rfl rfl rfl
  next => exact hend rfl rfl rfl

theorem pastCancel_of_answered (hshape : Shape call) (h : call.answeredAt.isSome = true) :
    pastCancel call = true := decide_eq_true (.inl (hshape.answered h))

theorem spoke_onCancel {request : CancelRequest} (hshape : Shape call)
    (htold : (pastCancel call || gets487 call request) = true) :
    Spoke cfg call (.cancel request) (onCancel cfg call request) := by
  unfold onCancel
  split
  next => exact .quiet (Aside.refl call) rfl rfl
  next hpast =>
    have hpending : call.answeredAt = none := by
      by_contra hsome
      exact hpast (pastCancel_of_answered hshape (Option.isSome_iff_ne_none.mpr hsome))
    rw [Bool.eq_false_of_not_eq_true hpast, Bool.false_or, gets487, decide_eq_true_iff] at htold
    obtain ⟨hsource, htransport, hsome⟩ := htold
    obtain ⟨raw, hraw⟩ := Option.isSome_iff_exists.mp hsome
    refine .refused .cancelled 487 hpending hpending rfl rfl ?_
    dsimp only
    rw [if_pos ⟨hsource, htransport⟩, hraw]
    rfl

theorem spoke_onClosed {peer : SocketAddr} (branch : List Char) (hshape : Shape call)
    (htold : Told cfg call (.closed peer branch)) :
    Spoke cfg call (.closed peer branch) (onClosed cfg call peer branch) := by
  unfold onClosed
  dsimp only
  split
  next haffected =>
    split
    next hcaller =>
      cases hanswered : call.answeredAt with
      | none => exact .silent (.wsClosed false) (decide_eq_true hcaller) hanswered hanswered rfl rfl rfl
      | some at_ => exact .hungUp (by rw [hanswered]; rfl) rfl rfl rfl
    next hcaller =>
      -- the hangup of the caller is that of the SBC with the code of a gone callee
      have hend : Spoke cfg call (.closed peer branch) (endBy cfg call (.wsClosed true) (branch, branch)) :=
        spoke_endBy (.wsClosed true) hshape (htold haffected hcaller) (fun _ => rfl) (branch, branch)
      cases hend with
      | quiet _ hended => cases hended
      | answer a r hevent => cases hevent
      | hungUp hanswered hafter hended hfinals => exact .hungUp hanswered hafter rfl hfinals
      | refused outcome code hpending hafter hended hcode hfinals =>
          cases hended
          exact .refused (.wsClosed true) code hpending hafter rfl hcode hfinals
      | silent outcome hleaves hpending hafter hended hcode hfinals =>
          cases hended
          cases hcode
  next => exact .quiet (Aside.refl call) rfl rfl

/-- The step lemma for all that the caller hears. -/
theorem spoke_onEvent (hshape : Shape call) (htold : Told cfg call event) :
    Spoke cfg call event (onEvent cfg call event) := by
  cases event with
  | response a r => exact spoke_handleResponse hshape htold
  | ack request draw => exact .quiet aside_handleAck rfl rfl
  | bye byCaller reason relayed branch => exact spoke_onBye byCaller reason relayed branch
  | cancel request => exact spoke_onCancel hshape htold
  | inviteTimeout look timeout =>
      dsimp only [onEvent, onInviteTimeout]
      split
      next => exact .quiet (aside_failover cfg call look) rfl rfl
      next => exact .quiet (Aside.refl call) rfl rfl
  | setupTimeout now limit branches =>
      dsimp only [onEvent]
      split
      next hdue => exact spoke_endBy .setupTimeout hshape (htold hdue) (fun _ => rfl) branches
      next => exact .quiet (Aside.refl call) rfl rfl
  | rtpTimeout branches =>
      dsimp only [onEvent]
      split
      next hran =>
        refine spoke_endBy _ hshape (htold hran) (fun hnone => ?_) branches
        rw [relayRan, hnone] at hran
        cases hran
      next => exact .quiet (Aside.refl call) rfl rfl
  | hangup trigger branches =>
      refine spoke_endBy _ hshape htold (fun _ => ?_) branches
      cases trigger with
      | maxDuration => rfl
      | shutdown => rfl
      | adminKick => rfl
      | mediaUnavailable => rfl
  | closed peer branch => exact spoke_onClosed branch hshape htold
  | refresh now branch => exact .quiet (legs_refreshCall _ _ _ _ _ _ _).aside rfl rfl

end Ends

theorem answeredAt_new (n : NewCall) : n.call.answeredAt = none := by
  unfold NewCall.call
  split
  next => rfl
  next => rfl

theorem answeredAt_recorded (cfg : Config) (now : Nat) (n : NewCall) (route : Route) (raw localTag : List Char) :
    (recorded cfg now n route raw localTag).answeredAt = none := by
  have hrouted : (routed n route).answeredAt = none := by
    cases route with
    | contact dest transport replyTx => exact answeredAt_new n
    | trunk t dest candidates => exact answeredAt_new n
  exact hrouted

section Sample

def bareConfig : Config where
  lower := RawSip.asciiOnly
  upper := fun c => [c]
  md5 := Digest.anyHash
  parseAddr := fun _ => none
  reasonPhrase := fun _ => []
  sessionTimer := none
  identity := none

def host (n : UInt8) : SocketAddr := NetAddr.ofOctets 192 0 2 n 5060

def idleScene : Scene where
  now := 0
  trunks := ⟨fun _ => none, fun h => (nomatch h)⟩
  getState _ := none
  draw := 0
  cnonce := 0
  taken := true

/-- An INVITE to a registered user. -/
def aliceCall : NewCall where
  draw := 1
  callId := ['i']
  tag := ['g']
  source := host 1
  sdp := none
  mediaSessionId := none
  replyTx := none
  transport := .udp
  now := 0
  fromRaw := some "<sip:a@h>;tag=g".toList
  toRaw := some "<sip:b@h>".toList
  contact := none
  vias := ["Via: SIP/2.0/UDP a".toList]
  cseq := some 1

def bobsContact : Route := .contact (host 2) .udp none

def aliceInvite : List Char :=
  "INVITE sip:b@h SIP/2.0\r\n".toList ++ "Via: SIP/2.0/UDP h;branch=z9hG4bKa\r\n".toList ++
    "CSeq: 1 INVITE\r\n\r\n".toList

def bobsArrival : Arrival := ⟨host 2, fun _ => idleScene, ([], []), false, 0⟩

def bobsResponse (status : UInt16) : Response :=
  ⟨status, [], ["Via: SIP/2.0/UDP h;branch=z9hG4bKa".toList, "CSeq: 1 INVITE".toList], [], some ['i'],
    some "<sip:a@h>;tag=g".toList, some "<sip:b@h>;tag=b".toList, none, some ['b']⟩

def bobsAnswer (status : UInt16) : CallEvent := .response bobsArrival (bobsResponse status)

end Sample

end NixiSbc.CallerFinals
