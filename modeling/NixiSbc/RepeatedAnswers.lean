import NixiSbc.CallFrames
import NixiSbc.LateAnswers
import NixiSbc.SessionRefresh

namespace NixiSbc.RepeatedAnswers

open Stun CallSetup InviteRetries Teardown ResponseHandler CallHandlers RetrySteps FailoverSteps StateRuns
open InviteTexts (parseSessionExpires)
open AttemptBound (begin_)
open CallerFinals (isSuccess isProvisional bareConfig host idleScene aliceCall bobsArrival bobsResponse)
open B2bua (CallLeg SessionTimerState noteRelayedCseq)

/-- What a session timer knows of the session, without the time of the next
refresh. -/
def timing (st : SessionTimerState) :
    UInt32 × Option UInt32 × Option (List Char) × Option (UInt32 × List Char) × UInt32 :=
  (st.intervalSecs, st.pendingRefreshCseq, st.pendingRefreshRaw, st.lastRefresh, st.refreshFailures)

/-- The call is answered as it was, on the same two legs and with the same
session. -/
structure Kept (call after : SetupCall) : Prop where
  answered : after.answeredAt = call.answeredAt
  inbound : after.inbound = call.inbound
  outbound : after.outbound = call.outbound
  state : after.state = call.state
  timer : after.sessionTimer.map timing = call.sessionTimer.map timing

/-- A call with the 2xx that answered it first. The 2xx is history, which no
handler reads. -/
structure Watched where
  call : SetupCall
  answer : Option Response

/-- Beside the events of the call, a request that is relayed counts on one of
the legs. -/
inductive Event
  | call (event : CallEvent)
  | relayed (towardCallee : Bool) (cseq : UInt32)

/-- An INVITE that went out: one of the call's setup, or a session refresh. -/
def invites (s : Sent) : Bool :=
  match s.kind with
  | .invite _ _ taken => taken
  | .reinvite => true
  | _ => false

section

variable (cfg : Config)

/-- The 2xx that goes to the arm for it. -/
def answerOf (call : SetupCall) : CallEvent → Option Response
  | .response a r => if reachesArms cfg a call r && isSuccess r.status then some r else none
  | _ => none

def watch (s : Watched) : Event → Option Watched
  | .call event => (onEvent cfg s.call event).left.map fun call => ⟨call, s.answer <|> answerOf cfg s.call event⟩
  | .relayed towardCallee cseq => some { s with call := s.call.mapCall fun c => noteRelayedCseq c towardCallee cseq }

def step (s : Option Watched) (event : Event) : Option Watched := s.bind fun s => watch cfg s event

def start (look : Nat → Scene) (n : NewCall) (route : Route) (raw localTag : List Char) : Option Watched :=
  (begin_ cfg look n route raw localTag).live.map fun call => ⟨call, none⟩

/-- The two say the same of the dialog and of the session. -/
structure Repeats (r r' : Response) : Prop where
  tag : r'.toTag.getD [] = r.toTag.getD []
  fromHeader : r'.fromHeader = r.fromHeader
  toHeader : r'.toHeader = r.toHeader
  contact : r'.contactHeader = r.contactHeader
  interval : parseSessionExpires cfg.lower r'.text = parseSessionExpires cfg.lower r.text

/-- An event that leaves an answered call in the map brings about no INVITE. If
it is a response to the live attempt it says again what the answer said, or it
is a provisional one before the ACK. -/
def Undisturbed (s : Option Watched) : Event → Prop
  | .call event => ∀ w, s = some w → ∀ r, w.answer = some r → (onEvent cfg w.call event).left ≠ none →
      (∀ m ∈ (onEvent cfg w.call event).sent, invites m = false) ∧
      ∀ a r', event = .response a r' → reachesArms cfg a w.call r' = true →
        (isSuccess r'.status = true → Repeats cfg r r') ∧
        (isProvisional r'.status = true → w.call.inbound.established = false)
  | .relayed _ _ => True

/-- The 2xx of an answered call may come again, at any time. -/
def Idempotent (s : Option Watched) : Prop :=
  ∀ w, s = some w → ∀ r, w.answer = some r → ∀ a, reachesArms cfg a w.call r = true →
    Kept w.call (handleResponse cfg a w.call r).after

end

section Answered

variable {cfg : Config} {call : SetupCall} {r : Response}

def answeredLeg (r : Response) (leg : CallLeg) : CallLeg :=
  let leg := { leg with remoteTag := some (r.toTag.getD []), established := true }
  match r.fromHeader, r.toHeader with
  | some fromRaw, some toRaw =>
      { leg with fromRaw := some fromRaw, toRaw := some toRaw, remoteTarget := r.contactHeader.map extractContactUri }
  | _, _ => leg

def answeredInbound (r : Response) (leg : CallLeg) : CallLeg :=
  match r.fromHeader, r.toHeader with
  | some _, some toRaw => { leg with toRaw := some toRaw }
  | _, _ => leg

theorem answeredLeg_answeredLeg (r : Response) (leg : CallLeg) : answeredLeg r (answeredLeg r leg) = answeredLeg r leg := by
  unfold answeredLeg
  split <;> rfl

theorem answeredInbound_answeredInbound (r : Response) (leg : CallLeg) :
    answeredInbound r (answeredInbound r leg) = answeredInbound r leg := by
  unfold answeredInbound
  cases r.fromHeader with
  | none => rfl
  | some fromRaw => cases r.toHeader <;> rfl

/-- The timer depends on the live INVITE and on the trunk. -/
theorem armSessionTimer_congr {call' : SetupCall} (hattempts : call'.inviteAttempts = call.inviteAttempts)
    (htrunk : call'.trunkId = call.trunkId) (htimer : call'.sessionTimer = call.sessionTimer) (now : Nat)
    (text : List Char) :
    (armSessionTimer cfg call' now text).sessionTimer = (armSessionTimer cfg call now text).sessionTimer := by
  unfold armSessionTimer
  rw [hattempts, htrunk]
  split
  next => rfl
  next => exact htimer

/-- What a 2xx does to the legs and the state of a call, and then to the timer. -/
theorem answered_eq (cfg : Config) (call : SetupCall) (now : Nat) (r : Response) :
    answered cfg call now r = armSessionTimer cfg { call with
      answeredAt := call.answeredAt <|> some now
      inbound := answeredInbound r call.inbound
      outbound := call.outbound.map (answeredLeg r)
      state := if call.inbound.established then .connected else call.state } now r.text := by
  unfold answered answeredInbound answeredLeg
  dsimp only
  congr 1
  cases r.fromHeader with
  | none => rfl
  | some fromRaw =>
      cases r.toHeader with
      | none => rfl
      | some toRaw =>
          change setEstablishedDialog _ _ _ _ = _
          unfold setEstablishedDialog handle200Ok establishOutbound
          simp only [Option.map_map]
          rfl

theorem armSessionTimer_eq (cfg : Config) (call : SetupCall) (now : Nat) (text : List Char) :
    armSessionTimer cfg call now text =
      call.mapCall fun c => { c with sessionTimer := (armSessionTimer cfg call now text).sessionTimer } := by
  unfold armSessionTimer
  split
  next => rfl
  next => rfl

/-- The call is as the 2xx has left it. -/
structure Settled (cfg : Config) (r : Response) (call : SetupCall) : Prop where
  stamped : call.answeredAt.isSome = true
  inbound : answeredInbound r call.inbound = call.inbound
  leg : call.outbound.isSome = true
  outbound : call.outbound.map (answeredLeg r) = call.outbound
  state : call.inbound.established = true → call.state = .connected
  timer : ∀ now, (armSessionTimer cfg call now r.text).sessionTimer.map timing = call.sessionTimer.map timing

theorem fields_answered (cfg : Config) (call : SetupCall) (now : Nat) (r : Response) :
    (answered cfg call now r).answeredAt = (call.answeredAt <|> some now) ∧
    (answered cfg call now r).inbound = answeredInbound r call.inbound ∧
    (answered cfg call now r).outbound = call.outbound.map (answeredLeg r) ∧
    (answered cfg call now r).state = (if call.inbound.established then .connected else call.state) ∧
    (answered cfg call now r).sessionTimer = (armSessionTimer cfg call now r.text).sessionTimer := by
  rw [answered_eq, armSessionTimer_eq]
  refine ⟨rfl, rfl, rfl, rfl, ?_⟩
  apply armSessionTimer_congr
  · rfl
  · rfl
  · rfl

theorem answeredInbound_acked (r : Response) (leg : CallLeg) (tag : List Char) :
    answeredInbound r { leg with remoteTag := some tag, established := true } =
      { answeredInbound r leg with remoteTag := some tag, established := true } := by
  unfold answeredInbound
  cases r.fromHeader with
  | none => rfl
  | some fromRaw => cases r.toHeader <;> rfl

theorem answeredLeg_counted (r : Response) (leg : CallLeg) (n : UInt32) :
    answeredLeg r { leg with cseq := n } = { answeredLeg r leg with cseq := n } := by
  unfold answeredLeg
  cases r.fromHeader with
  | none => rfl
  | some fromRaw => cases r.toHeader <;> rfl

theorem established_answeredInbound (r : Response) (leg : CallLeg) :
    (answeredInbound r leg).established = leg.established := by
  unfold answeredInbound
  split
  next => rfl
  next => rfl

theorem established_answeredLeg (r : Response) (leg : CallLeg) : (answeredLeg r leg).established = true := by
  unfold answeredLeg
  split
  next => rfl
  next => rfl

/-- Nothing changes when the 2xx comes again. -/
theorem Settled.kept (h : Settled cfg r call) (now : Nat) : Kept call (answered cfg call now r) := by
  obtain ⟨hanswered, hinbound, houtbound, hstate, htimer⟩ := fields_answered cfg call now r
  obtain ⟨since, hsince⟩ := Option.isSome_iff_exists.mp h.stamped
  refine ⟨?_, hinbound.trans h.inbound, houtbound.trans h.outbound, ?_, ?_⟩
  · rw [hanswered, hsince]
    rfl
  · rw [hstate]
    split
    next hacked => exact (h.state hacked).symm
    next => rfl
  · rw [htimer]
    exact h.timer now

/-- A timer that is armed knows of no refresh, whatever there was before; else
nothing is touched. -/
theorem arms_or_not (cfg : Config) (call : SetupCall) (text : List Char) :
    (∃ interval, ∀ call' : SetupCall, call'.inviteAttempts = call.inviteAttempts → call'.trunkId = call.trunkId →
      ∀ now, (armSessionTimer cfg call' now text).sessionTimer.map timing = some (interval, none, none, none, 0)) ∨
    ∀ call' : SetupCall, call'.trunkId = call.trunkId → ∀ now, armSessionTimer cfg call' now text = call' := by
  unfold armSessionTimer
  cases hcfg : cfg.sessionTimer with
  | none => exact .inr fun call' _ now => rfl
  | some configured =>
      cases htrunk : call.trunkId with
      | none =>
          refine .inr fun call' hcall' now => ?_
          rw [hcall']
      | some id =>
          let armed := (armSessionTimer cfg call 0 text).sessionTimer
          refine .inl ⟨(armed.map SessionTimerState.intervalSecs).getD 0, fun call' hattempts hcall' now => ?_⟩
          simp only [armed, armSessionTimer, hcfg, htrunk, hcall', hattempts]
          rfl

theorem armSessionTimer_repeats {r' : Response} (h : Repeats cfg r r') (now : Nat) :
    armSessionTimer cfg call now r'.text = armSessionTimer cfg call now r.text := by
  unfold armSessionTimer
  rw [h.interval]

theorem answered_repeats {r' : Response} (h : Repeats cfg r r') (now : Nat) :
    answered cfg call now r' = answered cfg call now r := by
  have hleg : answeredLeg r' = answeredLeg r := by
    funext leg
    unfold answeredLeg
    rw [h.tag, h.fromHeader, h.toHeader, h.contact]
  have hinbound : answeredInbound r' = answeredInbound r := by
    funext leg
    unfold answeredInbound
    rw [h.fromHeader, h.toHeader]
  rw [answered_eq, answered_eq, hleg, hinbound]
  exact armSessionTimer_repeats h now

theorem settled_answered (h : call.outbound.isSome = true) (now : Nat) : Settled cfg r (answered cfg call now r) := by
  obtain ⟨hanswered, hinbound, houtbound, hstate, htimer⟩ := fields_answered cfg call now r
  have hsame : SameAttempts call (answered cfg call now r) := same_answered now r
  constructor
  case stamped =>
    rw [hanswered]
    cases call.answeredAt <;> rfl
  case inbound => rw [hinbound, answeredInbound_answeredInbound]
  case leg =>
    rw [houtbound, Option.isSome_map]
    exact h
  case outbound =>
    rw [houtbound, Option.map_map]
    exact congrArg (call.outbound.map ·) (funext (answeredLeg_answeredLeg r))
  case state =>
    intro hacked
    rw [hinbound, established_answeredInbound] at hacked
    rw [hstate, if_pos hacked]
  case timer =>
    intro now'
    rcases arms_or_not cfg call r.text with ⟨interval, harms⟩ | hnot
    · rw [harms _ hsame.attempts hsame.trunk, htimer, harms _ rfl rfl]
    · rw [hnot _ hsame.trunk]

end Answered

section Frames

variable {cfg : Config} {call : SetupCall} {r : Response}

/-- Nothing that the 2xx settles has changed, nor what it settles it by. -/
structure Untouched (call after : SetupCall) : Prop where
  answered : after.answeredAt = call.answeredAt
  inbound : after.inbound = call.inbound
  outbound : after.outbound = call.outbound
  state : after.state = call.state
  attempts : after.inviteAttempts = call.inviteAttempts
  trunk : after.trunkId = call.trunkId
  timer : after.sessionTimer = call.sessionTimer

theorem Untouched.refl (call : SetupCall) : Untouched call call := ⟨rfl, rfl, rfl, rfl, rfl, rfl, rfl⟩

theorem Untouched.trans {a b c : SetupCall} (h : Untouched a b) (h' : Untouched b c) : Untouched a c :=
  ⟨h'.answered.trans h.answered, h'.inbound.trans h.inbound, h'.outbound.trans h.outbound, h'.state.trans h.state,
    h'.attempts.trans h.attempts, h'.trunk.trans h.trunk, h'.timer.trans h.timer⟩

theorem Settled.timer_congr (h : Settled cfg r call) {after : SetupCall}
    (hattempts : after.inviteAttempts = call.inviteAttempts) (htrunk : after.trunkId = call.trunkId)
    (htimer : after.sessionTimer = call.sessionTimer) (now : Nat) :
    (armSessionTimer cfg after now r.text).sessionTimer.map timing = after.sessionTimer.map timing := by
  rw [armSessionTimer_congr hattempts htrunk htimer, htimer]
  exact h.timer now

theorem Settled.untouched (h : Settled cfg r call) {after : SetupCall} (hsame : Untouched call after) :
    Settled cfg r after := by
  constructor
  case stamped =>
    rw [hsame.answered]
    exact h.stamped
  case inbound =>
    rw [hsame.inbound]
    exact h.inbound
  case leg =>
    rw [hsame.outbound]
    exact h.leg
  case outbound =>
    rw [hsame.outbound]
    exact h.outbound
  case state =>
    rw [hsame.inbound, hsame.state]
    exact h.state
  case timer => exact h.timer_congr hsame.attempts hsame.trunk hsame.timer

/-- A retry without an INVITE that goes out changes nothing. -/
theorem untouched_407 {scene : Scene} {response : List Char} {source : SocketAddr}
    (h : ∀ m ∈ (handle407AuthRetry cfg scene call response source).2.2, invites m = false) :
    Untouched call (handle407AuthRetry cfg scene call response source).2.1 := by
  unfold handle407AuthRetry at h ⊢
  split at h
  next => exact .refl call
  next trunk value original _ =>
    dsimp only at h ⊢
    split at h
    next htaken =>
      have hsent := h _ (List.mem_singleton_self _)
      exact absurd (htaken.symm.trans hsent) Bool.noConfusion
    next htaken =>
      rw [if_neg htaken]
      exact .refl call

theorem untouched_422 {scene : Scene} {response : List Char} {source : SocketAddr}
    (h : ∀ m ∈ (handle422SessionIntervalRetry cfg scene call response source).2.2, invites m = false) :
    Untouched call (handle422SessionIntervalRetry cfg scene call response source).2.1 := by
  unfold handle422SessionIntervalRetry at h ⊢
  split at h
  next => exact .refl call
  next attempt invite _ =>
    dsimp only at h ⊢
    split at h
    next htaken =>
      have hsent := h _ (List.mem_singleton_self _)
      exact absurd (htaken.symm.trans hsent) Bool.noConfusion
    next htaken =>
      rw [if_neg htaken]
      exact .refl call

theorem untouched_take {now : Nat} {id : Trunks.TrunkId} {after : SetupCall}
    (h : takeNextFailoverCandidate call now = some (id, after)) : Untouched call after := by
  obtain ⟨fo, rest, -, -, rfl⟩ := take_cases h
  exact ⟨rfl, rfl, rfl, rfl, rfl, rfl, rfl⟩

theorem untouched_failsOver {look : Nat → Scene} {retried : Retried} (h : FailsOver cfg look call retried)
    (hsent : ∀ m ∈ retried.2.2, invites m = false) : Untouched call retried.2.1 := by
  induction h with
  | exhausted htake => exact .refl _
  | passed htake hselectable hrest ih => exact (untouched_take htake).trans (ih hsent)
  | unstored htake => exact untouched_take htake
  | unreadable htake => exact untouched_take htake
  | taken htake => exact absurd (hsent _ (List.mem_append_right _ (List.mem_singleton_self _))) Bool.noConfusion
  | untaken htake hselectable hstored hinvite hrest ih =>
      refine (untouched_take htake).trans (ih fun m hm => hsent m ?_)
      exact List.mem_append_right _ (List.mem_cons_of_mem _ hm)

theorem untouched_failover {look : Nat → Scene}
    (h : ∀ m ∈ (failoverToNextTrunk cfg look call).2.2, invites m = false) :
    Untouched call (failoverToNextTrunk cfg look call).2.1 :=
  untouched_failsOver (failsOver_nextTrunk cfg call look) h

theorem untouched_retriedOr {status : UInt16} {raw : List Char} {retried : Retried}
    (h : (∀ m ∈ retried.2.2, invites m = false) → Untouched call retried.2.1)
    (hsent : ∀ m ∈ (retriedOr status raw retried).sent, invites m = false) :
    Untouched call (retriedOr status raw retried).after := by
  rw [AnsweredCalls.after_retriedOr]
  rw [(left_retriedOr status raw retried).2] at hsent
  exact h hsent

theorem untouched_onError {a : Arrival} (h : ∀ m ∈ (onError cfg a call r).sent, invites m = false) :
    Untouched call (onError cfg a call r).after := by
  unfold onError at h ⊢
  split at h
  next hfails =>
    split at h
    next id after htake =>
      have hback : Untouched call (putBack after id) := by
        have htaken := untouched_take htake
        exact ⟨htaken.answered, htaken.inbound, htaken.outbound, htaken.state, htaken.attempts, htaken.trunk, htaken.timer⟩
      rw [if_pos hfails]
      exact hback.trans (untouched_retriedOr untouched_failover h)
    next hnone =>
      rw [if_pos hfails]
      exact .refl call
  next hfails =>
    rw [if_neg hfails]
    exact .refl call

/-- A provisional response before the ACK takes nothing back. -/
theorem Settled.provisional (h : Settled cfg r call) (hacked : call.inbound.established = false) (now : Nat)
    (status : UInt16) : Settled cfg r (onProvisional call now status) := by
  have hnot {P : Prop} (hyes : call.inbound.established = true) : P := Bool.noConfusion (hacked.symm.trans hyes)
  unfold onProvisional
  split
  next => exact ⟨h.stamped, h.inbound, h.leg, h.outbound, hnot, h.timer_congr rfl rfl rfl⟩
  next => exact ⟨h.stamped, h.inbound, h.leg, h.outbound, hnot, h.timer_congr rfl rfl rfl⟩

theorem settled_onStatus (h : Settled cfg r call) {a : Arrival} {r' : Response}
    (hsent : ∀ m ∈ (onStatus cfg a call r').sent, invites m = false)
    (hrepeats : isSuccess r'.status = true → Repeats cfg r r')
    (hacked : isProvisional r'.status = true → call.inbound.established = false) :
    Settled cfg r (onStatus cfg a call r').after := by
  unfold onStatus at hsent ⊢
  split at hsent
  next hprovisional =>
    rw [if_pos hprovisional]
    exact h.provisional (hacked (decide_eq_true hprovisional)) _ _
  next hprovisional =>
    rw [if_neg hprovisional]
    split at hsent
    next hsuccess =>
      rw [if_pos hsuccess]
      have hsettled (now : Nat) : Settled cfg r (answered cfg call now r') := by
        rw [answered_repeats (hrepeats (decide_eq_true hsuccess))]
        exact settled_answered h.leg now
      unfold onAnswer
      dsimp only
      split
      next => exact hsettled _
      next => exact hsettled _
    next hsuccess =>
      rw [if_neg hsuccess]
      split at hsent
      next h407 =>
        rw [if_pos h407]
        exact h.untouched (untouched_retriedOr untouched_407 hsent)
      next h407 =>
        rw [if_neg h407]
        split at hsent
        next h422 =>
          rw [if_pos h422]
          exact h.untouched (untouched_retriedOr untouched_422 hsent)
        next h422 =>
          rw [if_neg h422]
          exact h.untouched (untouched_onError hsent)

/-- The answer to a refresh concerns the timer only. -/
theorem refreshResponse_eq {a : Arrival} {r' : Response} {cseq : UInt32} {after : SetupCall}
    (h : (handleRefreshResponse cfg a call r' cseq).left = some after) :
    after = call.mapCall fun c => { c with sessionTimer := after.sessionTimer } := by
  have hcomplete (V : TextFields.Uppering) (branch localIp : List Char) (localPort : UInt16) :
      (B2bua.completeSessionRefresh V call.toB2buaCall cseq branch localIp localPort).2 =
        { call.toB2buaCall with sessionTimer :=
            (B2bua.completeSessionRefresh V call.toB2buaCall cseq branch localIp localPort).2.sessionTimer } := by
    unfold B2bua.completeSessionRefresh
    split
    next => rfl
    next => split <;> rfl
  have hfail (U : RawSip.Lowering) (now delayMs : Nat) (status : UInt16) (minSe : Option UInt32) (toRaw : List Char) :
      (B2bua.failSessionRefresh U call.toB2buaCall now delayMs cseq status minSe toRaw).2 =
        { call.toB2buaCall with sessionTimer :=
            (B2bua.failSessionRefresh U call.toB2buaCall now delayMs cseq status minSe toRaw).2.sessionTimer } := by
    unfold B2bua.failSessionRefresh
    split
    next => rfl
    next =>
      split
      next => rfl
      next =>
        dsimp only
        split
        next => rfl
        next => split <;> rfl
  unfold handleRefreshResponse at h
  split at h
  next =>
    cases h
    rfl
  next =>
    split at h
    next =>
      cases h
      exact congrArg (fun c => call.mapCall fun _ => c) (hcomplete _ _ _ _)
    next =>
      dsimp only at h
      split at h
      next =>
        cases h
        exact congrArg (fun c => call.mapCall fun _ => c) (hfail _ _ _ _ _ _)
      next =>
        split at h
        next => cases h
        next =>
          cases h
          exact congrArg (fun c => call.mapCall fun _ => c) (hfail _ _ _ _ _ _)

/-- No refresh is pending where the 2xx has armed the timer. -/
theorem Settled.refreshResponse (h : Settled cfg r call) {a : Arrival} {r' : Response} {cseq : UInt32}
    (hpending : isPendingRefresh call.toB2buaCall cseq = true) {after : SetupCall}
    (hafter : (handleRefreshResponse cfg a call r' cseq).left = some after) : Settled cfg r after := by
  rw [refreshResponse_eq hafter]
  generalize after.sessionTimer = timer
  refine ⟨h.stamped, h.inbound, h.leg, h.outbound, h.state, fun now => ?_⟩
  rcases arms_or_not cfg call r.text with ⟨interval, harms⟩ | hnot
  · obtain ⟨st, hst, hcseq⟩ := (Option.any_eq_true ..).mp hpending
    have htimer := (h.timer 0).symm.trans (harms call rfl rfl 0)
    rw [hst, Option.map_some, Option.some.injEq] at htimer
    have hnone : st.pendingRefreshCseq = none := congrArg (fun t => t.2.1) htimer
    rw [hnone] at hcseq
    cases hcseq
  · have hsame : (call.mapCall fun c => { c with sessionTimer := timer }).trunkId = call.trunkId := rfl
    rw [hnot _ hsame]

theorem after_success (hsuccess : isSuccess r.status = true) (a : Arrival) :
    (onStatus cfg a call r).after = answered cfg call (a.scene call).now r := by
  have hstatus := of_decide_eq_true hsuccess
  have hprovisional : ¬ (100 ≤ r.status ∧ r.status ≤ 199) := fun h =>
    UInt16.not_le.mpr (UInt16.lt_of_lt_of_le (by decide) hstatus.1) h.2
  unfold onStatus
  rw [if_neg hprovisional, if_pos hstatus]
  unfold onAnswer
  dsimp only
  split
  next => rfl
  next => rfl

theorem untouched_marked (call : SetupCall) : Untouched call (markCalleeResponded call) :=
  ⟨rfl, rfl, rfl, rfl, rfl, rfl, rfl⟩

theorem untouched_from {from_ : SetupCall} (h : from_ = call ∨ from_ = markCalleeResponded call) :
    Untouched call from_ := by
  rcases h with rfl | rfl
  · exact .refl _
  · exact untouched_marked call

theorem settled_handleResponse (h : Settled cfg r call) {a : Arrival} {r' : Response} {after : SetupCall}
    (hleft : (handleResponse cfg a call r').left = some after)
    (hsent : ∀ m ∈ (handleResponse cfg a call r').sent, invites m = false)
    (hrepeats : reachesArms cfg a call r' = true → isSuccess r'.status = true → Repeats cfg r r')
    (hacked : reachesArms cfg a call r' = true → isProvisional r'.status = true → call.inbound.established = false) :
    Settled cfg r after := by
  have hhandled := handled_response cfg call a r'
  generalize handleResponse cfg a call r' = fx at hhandled hleft hsent
  cases hhandled with
  | arms from_ acks harms hfrom hacks =>
      have hafter : after = (onStatus cfg a from_ r').after := CallFrames.left_eq hleft
      have hsame := untouched_from hfrom
      rw [hafter]
      refine settled_onStatus (h.untouched hsame) (fun m hm => hsent m (List.mem_append_right _ hm)) (hrepeats harms) ?_
      rw [hsame.inbound]
      exact hacked harms
  | refresh cseq harms hpending => exact h.refreshResponse hpending hleft
  | apart sent harms hsent =>
      cases hleft
      exact h

theorem Settled.ack (h : Settled cfg r call) : Settled cfg r (handleAck call) := by
  have hlegs : outboundEstablished call.toB2buaCall = true := by
    obtain ⟨leg, hleg⟩ := Option.isSome_iff_exists.mp h.leg
    have hfixed := h.outbound
    rw [hleg, Option.map_some, Option.some.injEq] at hfixed
    rw [outboundEstablished, hleg, Option.any_some, ← hfixed]
    exact established_answeredLeg r leg
  have hinbound : answeredInbound r (handleAck call).inbound = (handleAck call).inbound := by
    rw [handleAck_eq]
    change answeredInbound r { call.inbound with remoteTag := some (call.inbound.remoteTag.getD []), established := true } = _
    rw [answeredInbound_acked, h.inbound]
    rfl
  have hsame : SameAttempts call (handleAck call) := same_handleAck
  refine ⟨?_, hinbound, ?_, ?_, fun _ => ?_, h.timer_congr hsame.attempts hsame.trunk ?_⟩
  · rw [handleAck_eq]
    exact h.stamped
  · rw [handleAck_eq]
    exact h.leg
  · rw [handleAck_eq]
    exact h.outbound
  · rw [state_handleAck, if_pos hlegs]
  · rw [handleAck_eq]
    rfl

/-- A relayed request counts on a leg and does nothing else. -/
theorem Settled.relayed (h : Settled cfg r call) (towardCallee : Bool) (cseq : UInt32) :
    Settled cfg r (call.mapCall fun c => noteRelayedCseq c towardCallee cseq) := by
  cases towardCallee with
  | false => exact ⟨h.stamped, h.inbound, h.leg, h.outbound, h.state, h.timer_congr rfl rfl rfl⟩
  | true =>
      refine ⟨h.stamped, h.inbound, ?_, ?_, h.state, h.timer_congr rfl rfl rfl⟩
      · change (call.outbound.map _).isSome = true
        rw [Option.isSome_map]
        exact h.leg
      · change (call.outbound.map fun leg => { leg with cseq := max leg.cseq cseq }).map (answeredLeg r) =
          call.outbound.map fun leg => { leg with cseq := max leg.cseq cseq }
        have hfixed := h.outbound
        cases hleg : call.outbound with
        | none => rfl
        | some leg =>
            rw [hleg, Option.map_some, Option.some.injEq] at hfixed
            rw [Option.map_some, Option.map_some, answeredLeg_counted, hfixed]

/-- No event that is undisturbed takes back what the 2xx has settled. -/
theorem settled_onEvent (h : Settled cfg r call) {event : CallEvent} {after : SetupCall}
    (hleft : (onEvent cfg call event).left = some after)
    (hsent : ∀ m ∈ (onEvent cfg call event).sent, invites m = false)
    (hresponse : ∀ a r', event = .response a r' → reachesArms cfg a call r' = true →
      (isSuccess r'.status = true → Repeats cfg r r') ∧
      (isProvisional r'.status = true → call.inbound.established = false)) : Settled cfg r after := by
  have hended {fx : Effects} (hsome : fx.ended ≠ none) (hleft : fx.left = some after) : Settled cfg r after := by
    rw [Effects.left, if_neg hsome] at hleft
    cases hleft
  have hunchanged (hleft : (unchanged call).left = some after) : Settled cfg r after := by
    cases hleft
    exact h
  cases event with
  | response a r' =>
      have hthis := hresponse a r' rfl
      exact settled_handleResponse h hleft hsent (fun harms => (hthis harms).1) fun harms => (hthis harms).2
  | ack request draw =>
      cases hleft
      exact h.ack
  | bye byCaller reason relayed branch =>
      refine hended ?_ hleft
      simp only [onEvent, onBye]
      split
      next => split <;> exact Option.some_ne_none _
      next => exact Option.some_ne_none _
  | cancel request =>
      simp only [onEvent, onCancel] at hleft
      split at hleft
      next => exact hunchanged hleft
      next => cases hleft
  | inviteTimeout look timeout =>
      simp only [onEvent, onInviteTimeout] at hleft hsent
      split at hleft
      next hdue =>
        rw [if_pos hdue] at hsent
        cases hleft
        exact h.untouched (untouched_failover hsent)
      next => exact hunchanged hleft
  | setupTimeout now limit branches =>
      simp only [onEvent] at hleft
      split at hleft
      next => cases hleft
      next => exact hunchanged hleft
  | rtpTimeout branches =>
      simp only [onEvent] at hleft
      split at hleft
      next => cases hleft
      next => exact hunchanged hleft
  | hangup trigger branches => cases hleft
  | closed peer branch =>
      simp only [onEvent, onClosed] at hleft
      split at hleft
      next => split at hleft <;> cases hleft
      next => exact hunchanged hleft
  | refresh now branch =>
      cases hleft
      simp only [onEvent] at hsent ⊢
      rcases SessionRefresh.refreshCall_cases cfg.lower cfg.upper call.toB2buaCall now branch cfg.sbcIp cfg.sbcPort with
        hidle | ⟨out, st, nextAt, -, -, -, -, hdue⟩
      · rw [hidle]
        exact h
      · rw [hdue] at hsent
        exact absurd (hsent _ (List.mem_singleton_self _)) Bool.noConfusion

end Frames

section Runs

variable {cfg : Config}

/-- A call has its outbound leg from the start, and after a 2xx it is as that
has left it. -/
def Inv (cfg : Config) (s : Option Watched) : Prop :=
  ∀ w, s = some w → w.call.outbound.isSome = true ∧
    ∀ r, w.answer = some r → isSuccess r.status = true ∧ Settled cfg r w.call

theorem leg_kept {call after : SetupCall} (h : after.outbound.map CallLeg.cseq = call.outbound.map CallLeg.cseq) :
    after.outbound.isSome = call.outbound.isSome := by
  have hsome := congrArg Option.isSome h
  rwa [Option.isSome_map, Option.isSome_map] at hsome

theorem leg_onEvent {call after : SetupCall} {event : CallEvent} (hleft : (onEvent cfg call event).left = some after) :
    after.outbound.isSome = call.outbound.isSome := by
  by_cases hrefresh : ∃ now branch, event = .refresh now branch
  · obtain ⟨now, branch, rfl⟩ := hrefresh
    cases hleft
    rcases SessionRefresh.refreshCall_cases cfg.lower cfg.upper call.toB2buaCall now branch cfg.sbcIp cfg.sbcPort with
      hidle | ⟨out, st, nextAt, -, -, -, -, hdue⟩
    · simp only [onEvent, hidle]
      rfl
    · simp only [onEvent, hdue]
      exact Option.isSome_map
  · exact leg_kept (CallFrames.steady_onEvent hleft fun now branch h => hrefresh ⟨now, branch, h⟩).leg

/-- The 2xx that answers a call settles it. -/
theorem settled_answerOf {call after : SetupCall} {event : CallEvent} {r : Response}
    (hleg : call.outbound.isSome = true) (hleft : (onEvent cfg call event).left = some after)
    (hanswer : answerOf cfg call event = some r) : isSuccess r.status = true ∧ Settled cfg r after := by
  cases event with
  | response a r' =>
      rw [answerOf, Option.ite_none_right_eq_some] at hanswer
      obtain ⟨hreaches, hr⟩ := hanswer
      cases hr
      obtain ⟨harms, hsuccess⟩ := Bool.and_eq_true_iff.mp hreaches
      refine ⟨hsuccess, ?_⟩
      rw [CallFrames.left_eq hleft]
      change Settled cfg r (handleResponse cfg a call r).after
      have hhandled := handled_response cfg call a r
      generalize handleResponse cfg a call r = fx at hhandled ⊢
      cases hhandled with
      | arms from_ acks _ hfrom hacks =>
          have hsame := untouched_from hfrom
          change Settled cfg r (onStatus cfg a from_ r).after
          rw [after_success hsuccess]
          exact settled_answered (hsame.outbound ▸ hleg) _
      | refresh cseq hnot hpending => cases harms.symm.trans hnot
      | apart sent hnot hsent => cases harms.symm.trans hnot
  | ack | bye | cancel | inviteTimeout | setupTimeout | rtpTimeout | hangup | closed | refresh => cases hanswer

theorem Inv.step {s : Option Watched} {event : Event} (h : Inv cfg s) (hevent : Undisturbed cfg s event) :
    Inv cfg (step cfg s event) := by
  intro w' hw'
  obtain ⟨w, hw, hwatch⟩ := Option.bind_eq_some_iff.mp hw'
  obtain ⟨hleg, hsettled⟩ := h w hw
  cases event with
  | call event =>
      obtain ⟨after, hleft, rfl⟩ := Option.map_eq_some_iff.mp hwatch
      refine ⟨(leg_onEvent hleft).trans hleg, fun r hr => ?_⟩
      cases hanswer : w.answer with
      | none =>
          rw [hanswer] at hr
          exact settled_answerOf hleg hleft hr
      | some r' =>
          have hsame : r' = r := by
            rw [hanswer] at hr
            exact Option.some.inj hr
          subst hsame
          obtain ⟨hsuccess, hcall⟩ := hsettled r' hanswer
          obtain ⟨hsent, hresponse⟩ := hevent w hw r' hanswer (hleft ▸ Option.some_ne_none after)
          exact ⟨hsuccess, settled_onEvent hcall hleft hsent hresponse⟩
  | relayed towardCallee cseq =>
      cases hwatch
      refine ⟨?_, fun r hr => ⟨(hsettled r hr).1, (hsettled r hr).2.relayed towardCallee cseq⟩⟩
      cases towardCallee with
      | true => exact Option.isSome_map.trans hleg
      | false => exact hleg

theorem Inv.idempotent {s : Option Watched} (h : Inv cfg s) : Idempotent cfg s := by
  intro w hw r hr a harms
  obtain ⟨hsuccess, hsettled⟩ := (h w hw).2 r hr
  have hhandled := handled_response cfg w.call a r
  generalize handleResponse cfg a w.call r = fx at hhandled ⊢
  cases hhandled with
  | arms from_ acks _ hfrom hacks =>
      have hsame := untouched_from hfrom
      change Kept w.call (onStatus cfg a from_ r).after
      rw [after_success hsuccess]
      have hkept := (hsettled.untouched hsame).kept (a.scene from_).now
      exact ⟨hkept.answered.trans hsame.answered, hkept.inbound.trans hsame.inbound,
        hkept.outbound.trans hsame.outbound, hkept.state.trans hsame.state,
        hkept.timer.trans (congrArg (·.map timing) hsame.timer)⟩
  | refresh cseq hnot hpending => cases harms.symm.trans hnot
  | apart sent hnot hsent => cases harms.symm.trans hnot

theorem inv_start (look : Nat → Scene) (n : NewCall) (route : Route) (raw localTag : List Char) :
    Inv cfg (start cfg look n route raw localTag) := by
  intro w hw
  obtain ⟨call, hcall, rfl⟩ := Option.map_eq_some_iff.mp hw
  refine ⟨?_, nofun⟩
  have hafter : call = (forwardInvite cfg look n route raw localTag).after := CallFrames.left_eq hcall
  rw [hafter]
  unfold forwardInvite
  dsimp only
  split
  next => rfl
  next =>
    split
    next => exact leg_kept (CallFrames.steady_failover cfg _ look).leg
    next => exact leg_kept (CallFrames.steady_failover cfg _ look).leg

/-- The 2xx of an answered call changes nothing when it comes again, as long as
no INVITE has gone out since and the live attempt was not answered otherwise. -/
theorem repeated_answer_idempotent (cfg : Config) (look : Nat → Scene) (n : NewCall) (route : Route)
    (raw localTag : List Char) (events : List Event)
    (h : Throughout (step cfg) (Undisturbed cfg) (start cfg look n route raw localTag) events) :
    Idempotent cfg (events.foldl (step cfg) (start cfg look n route raw localTag)) := by
  have hinv := invariant_run (fun s event (hs : Inv cfg s) => hs.step) (inv_start look n route raw localTag) h
  exact hinv.idempotent

def timedConfig : Config := { bareConfig with sessionTimer := some (90, 90) }

def aliceOverTrunk : Option Watched :=
  start timedConfig (fun _ => idleScene) aliceCall (.trunk (LateAnswers.trunkAt 1 4) (host 4) [])
    ("INVITE sip:b@h SIP/2.0\r\n".toList ++ "Via: SIP/2.0/UDP h;branch=z9hG4bKa\r\n".toList ++
      "CSeq: 1 INVITE\r\n\r\nv=0".toList) ['l']

def bobAnswers : Event := .call (.response bobsArrival (bobsResponse 200))

def aliceAcks : Event := .call (.ack ⟨none, none, none, none⟩ 0)

theorem repeated_answer_idempotent_acked :
    Idempotent timedConfig ([bobAnswers, aliceAcks].foldl (step timedConfig) aliceOverTrunk) := by
  apply repeated_answer_idempotent
  refine ⟨?_, ?_, trivial⟩
  · -- the call is not answered yet
    intro w hw r hr
    obtain ⟨call, -, rfl⟩ := Option.map_eq_some_iff.mp hw
    cases hr
  · intro w hw r hr _
    refine ⟨fun m hm => ?_, fun a r' h => nomatch h⟩
    obtain ⟨dest, -, rfl⟩ := List.mem_map.mp hm
    rfl

/-- An answer that reaches its arm while a refresh is pending, and makes the call
forget of that. -/
def forgets (cfg : Config) (a : Arrival) (s : Option Watched) : Bool :=
  s.any fun w => w.answer.any fun r => reachesArms cfg a w.call r &&
    (CallFrames.pendingOf w.call).isSome && (CallFrames.pendingOf (handleResponse cfg a w.call r).after).isNone

theorem not_idempotent_of_forgets {a : Arrival} {s : Option Watched} (h : forgets cfg a s = true) :
    ¬ Idempotent cfg s := by
  intro hidempotent
  obtain ⟨w, hw, hany⟩ := (Option.any_eq_true ..).mp h
  obtain ⟨r, hr, hall⟩ := (Option.any_eq_true ..).mp hany
  simp only [Bool.and_eq_true] at hall
  obtain ⟨⟨harms, hpending⟩, hnone⟩ := hall
  have hkept := hidempotent w hw r hr a harms
  have hpendingOf (call : SetupCall) :
      CallFrames.pendingOf call = (call.sessionTimer.map timing).bind fun t => t.2.1 := by
    cases hst : call.sessionTimer <;> simp [CallFrames.pendingOf, hst, timing]
  rw [hpendingOf, hkept.timer, ← hpendingOf, Option.isNone_iff_eq_none] at hnone
  rw [hnone] at hpending
  cases hpending

/-- The 200 comes again after the first refresh was sent. -/
theorem repeated_answer_forgets_refresh :
    ¬ Idempotent timedConfig
      ([bobAnswers, aliceAcks, .call (.refresh 1000000 "z9hG4bKr".toList)].foldl (step timedConfig) aliceOverTrunk) :=
  not_idempotent_of_forgets (a := bobsArrival) (by decide +kernel)

end Runs

end NixiSbc.RepeatedAnswers
