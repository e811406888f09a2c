import NixiSbc.AttemptBound
import NixiSbc.CallerFinals

namespace NixiSbc.AnsweredCalls

open Stun CallSetup InviteRetries Teardown ResponseHandler CallHandlers RetrySteps FailoverSteps
open CallerFinals AttemptBound

def isError (status : UInt16) : Bool := 300 ≤ status ∧ status ≤ 699

/-- A 2xx that is processed. -/
def answers (cfg : Config) (call : SetupCall) : CallEvent → Bool
  | .response a r => reachesArms cfg a call r && isSuccess r.status
  | _ => false

/-- A 3xx to 6xx that is attributed to the live attempt by its CSeq. -/
def rejects (cfg : Config) (call : SetupCall) : CallEvent → Bool
  | .response a r => (responseCseq cfg.lower r).isSome && (reachesArms cfg a call r && isError r.status)
  | _ => false

/-- The INVITE is sent again, an error goes to the caller, or the call ends. -/
def Undoes (fx : Effects) : Prop :=
  (∃ s ∈ fx.sent, isInvite s = true) ∨ (∃ status ∈ finalsOf fx.toCaller, 300 ≤ status) ∨
    fx.ended ≠ none

section Rejections

variable {cfg : Config} {call : SetupCall}

/-- A retry that succeeds has sent an INVITE. -/
def Invites (r : Retried) : Prop := r.1 = true → ∃ s ∈ r.2.2, isInvite s = true

theorem invites_failed (call : SetupCall) (sent : List Sent) : Invites (false, call, sent) :=
  fun h => absurd h Bool.false_ne_true

theorem invites_407 (scene : Scene) (response : List Char) (source : SocketAddr) :
    Invites (handle407AuthRetry cfg scene call response source) := by
  unfold handle407AuthRetry
  split
  next => exact invites_failed _ _
  next =>
    dsimp only
    split
    next => exact fun _ => ⟨_, List.mem_cons_self, rfl⟩
    next => exact invites_failed _ _

theorem invites_422 (scene : Scene) (response : List Char) (source : SocketAddr) :
    Invites (handle422SessionIntervalRetry cfg scene call response source) := by
  unfold handle422SessionIntervalRetry
  split
  next => exact invites_failed _ _
  next =>
    dsimp only
    split
    next => exact fun _ => ⟨_, List.mem_cons_self, rfl⟩
    next => exact invites_failed _ _

theorem invites_failsOver {look : Nat → Scene} {r : Retried} (h : FailsOver cfg look call r) : Invites r := by
  induction h with
  | exhausted htake => exact invites_failed _ _
  | passed htake hselectable hrest ih => exact ih
  | unstored htake => exact invites_failed _ _
  | unreadable htake => exact invites_failed _ _
  | taken htake => exact fun _ => ⟨_, List.mem_append_right _ List.mem_cons_self, rfl⟩
  | untaken htake => exact fun _ => ⟨_, List.mem_append_right _ List.mem_cons_self, rfl⟩

theorem Undoes.acks {fx : Effects} (h : Undoes fx) (acks : List Sent) :
    Undoes { fx with sent := acks ++ fx.sent } := by
  refine h.imp_left ?_
  rintro ⟨s, hs, hinvite⟩
  exact ⟨s, List.mem_append_right acks hs, hinvite⟩

theorem undoes_retriedOr (status : UInt16) (raw : List Char) {r : Retried} (h : Invites r) :
    Undoes (retriedOr status raw r) := by
  unfold retriedOr
  split
  next hretried => exact .inl (h hretried)
  next => exact .inr (.inr (Option.some_ne_none _))

/-- No arm for an error looks at whether the call was answered. -/
theorem undoes_onStatus {a : Arrival} {r : Response} (h : 300 ≤ r.status) : Undoes (onStatus cfg a call r) := by
  unfold onStatus
  split
  next hprovisional => exact absurd hprovisional.2 (UInt16.not_le.mpr (UInt16.lt_of_lt_of_le (by decide) h))
  next =>
    split
    next hsuccess => exact absurd hsuccess.2 (UInt16.not_le.mpr (UInt16.lt_of_lt_of_le (by decide) h))
    next =>
      split
      next => exact undoes_retriedOr _ _ (invites_407 _ _ _)
      next =>
        split
        next => exact undoes_retriedOr _ _ (invites_422 _ _ _)
        next =>
          unfold onError
          split
          next =>
            split
            next => exact undoes_retriedOr _ _ (invites_failsOver (failsOver_nextTrunk cfg _ a.look))
            next => exact .inr (.inr (Option.some_ne_none _))
          next => exact .inr (.inr (Option.some_ne_none _))

theorem undoes_of_rejects {event : CallEvent} (h : rejects cfg call event = true) :
    Undoes (onEvent cfg call event) := by
  cases event with
  | response a r =>
      obtain ⟨harms, hstatus⟩ := Bool.and_eq_true_iff.mp (Bool.and_eq_true_iff.mp h).2
      change Undoes (handleResponse cfg a call r)
      have hhandled := handled_response cfg call a r
      generalize handleResponse cfg a call r = fx at hhandled ⊢
      cases hhandled with
      | arms from_ acks _ hfrom hacks => exact (undoes_onStatus (of_decide_eq_true hstatus).1).acks acks
      | refresh cseq hnot hpending => cases harms.symm.trans hnot
      | apart sent hnot hsent => cases harms.symm.trans hnot
  | _ => cases h

end Rejections

section Answers

variable {cfg : Config} {call : SetupCall}

theorem after_retriedOr (status : UInt16) (raw : List Char) (r : Retried) :
    (retriedOr status raw r).after = r.2.1 := by
  unfold retriedOr
  split
  next => rfl
  next => rfl

theorem aside_onError (a : Arrival) (r : Response) : Aside call (onError cfg a call r).after := by
  unfold onError
  split
  next =>
    split
    next id after htake =>
      rw [after_retriedOr]
      exact (aside_putBack htake).trans (aside_failover cfg _ a.look)
    next => exact Aside.refl call
  next => exact Aside.refl call

theorem answered_onStatus (a : Arrival) (r : Response) :
    (onStatus cfg a call r).after.answeredAt.isSome = (call.answeredAt.isSome || isSuccess r.status) := by
  unfold onStatus
  split
  next hprovisional =>
    have hstatus : isSuccess r.status = false :=
      decide_eq_false fun h => UInt16.not_le.mpr (UInt16.lt_of_lt_of_le (by decide) h.1) hprovisional.2
    rw [hstatus, Bool.or_false, (aside_onProvisional _ _).answered]
  next =>
    split
    next hsuccess =>
      rw [isSuccess, decide_eq_true hsuccess, Bool.or_true]
      unfold onAnswer
      dsimp only
      split
      next => exact answeredAt_answered
      next => exact answeredAt_answered
    next hsuccess =>
      rw [isSuccess, decide_eq_false hsuccess, Bool.or_false]
      split
      next => rw [after_retriedOr, (aside_407 _ _ _).answered]
      next =>
        split
        next => rw [after_retriedOr, (aside_422 _ _ _).answered]
        next => rw [(aside_onError a r).answered]

theorem answeredAt_refreshResponse (a : Arrival) (r : Response) (cseq : UInt32) :
    (handleRefreshResponse cfg a call r cseq).after.answeredAt = call.answeredAt := by
  unfold handleRefreshResponse
  split
  next => rfl
  next =>
    split
    next => rfl
    next =>
      dsimp only
      split
      next => rfl
      next =>
        split
        next => rfl
        next => rfl

theorem answered_handleResponse (a : Arrival) (r : Response) :
    (handleResponse cfg a call r).after.answeredAt.isSome =
      (call.answeredAt.isSome || (reachesArms cfg a call r && isSuccess r.status)) := by
  have hhandled := handled_response cfg call a r
  generalize handleResponse cfg a call r = fx at hhandled ⊢
  cases hhandled with
  | arms from_ acks harms hfrom hacks =>
      rw [harms, Bool.true_and]
      rcases hfrom with rfl | rfl
      · exact answered_onStatus a r
      · exact answered_onStatus a r
  | refresh cseq harms hpending => rw [harms, Bool.false_and, Bool.or_false, answeredAt_refreshResponse]
  | apart sent harms hsent => rw [harms, Bool.false_and, Bool.or_false]

/-- A call is answered by the processing of a 2xx, and by nothing else. -/
theorem answered_onEvent (event : CallEvent) :
    (onEvent cfg call event).after.answeredAt.isSome =
      (call.answeredAt.isSome || answers cfg call event) := by
  have hsame {fx : Effects} (h : fx.after.answeredAt = call.answeredAt) :
      fx.after.answeredAt.isSome = (call.answeredAt.isSome || false) := by rw [h, Bool.or_false]
  cases event with
  | response a r => exact answered_handleResponse a r
  | ack request draw => exact hsame aside_handleAck.answered
  | bye byCaller reason relayed branch =>
      dsimp only [onEvent, onBye]
      split
      next =>
        split
        next => exact hsame rfl
        next => exact hsame rfl
      next => exact hsame rfl
  | cancel request =>
      dsimp only [onEvent, onCancel]
      split
      next => exact hsame rfl
      next => exact hsame rfl
  | inviteTimeout look timeout =>
      dsimp only [onEvent, onInviteTimeout]
      split
      next => exact hsame (aside_failover cfg call look).answered
      next => exact hsame rfl
  | setupTimeout now limit branches =>
      dsimp only [onEvent]
      split
      next => exact hsame rfl
      next => exact hsame rfl
  | rtpTimeout branches =>
      dsimp only [onEvent]
      split
      next => exact hsame rfl
      next => exact hsame rfl
  | hangup trigger branches => exact hsame rfl
  | closed peer branch =>
      dsimp only [onEvent, onClosed]
      split
      next =>
        split
        next => exact hsame rfl
        next => exact hsame rfl
      next => exact hsame rfl
  | refresh now branch => exact hsame rfl

end Answers

section Runs

variable (cfg : Config)

/-- An event finds the call answered exactly if an earlier one brought a 2xx. -/
theorem answered_met {s : Attempts} {told : Bool} (hlive : ∀ call ∈ s.live, call.answeredAt.isSome = told)
    {events : List CallEvent} {before after : List (SetupCall × CallEvent)} {call : SetupCall}
    {event : CallEvent} (h : met cfg s events = before ++ (call, event) :: after) :
    call.answeredAt.isSome = (told || before.any fun p => answers cfg p.1 p.2) := by
  induction events generalizing s told before with
  | nil => exact absurd h.symm (List.append_ne_nil_of_right_ne_nil _ (List.cons_ne_nil _ _))
  | cons first events ih =>
      rw [met, step] at h
      cases hs : s.live with
      | none =>
          rw [hs] at h
          exact ih hlive h
      | some c =>
          rw [hs] at h
          have hc : c.answeredAt.isSome = told := hlive c hs
          cases before with
          | nil =>
              cases (List.cons.inj h).1
              rw [hc, List.any_nil, Bool.or_false]
          | cons p before =>
              obtain ⟨hp, hrest⟩ := List.cons.inj h
              rw [← hp, List.any_cons, ← Bool.or_assoc, ← hc, ← answered_onEvent]
              refine ih (fun c' hc' => ?_) hrest
              rcases left_cases (onEvent cfg c first) with hleft | hleft
              · cases hleft.symm.trans hc'
                rfl
              · cases hleft.symm.trans hc'

theorem unanswered_begin (look : Nat → Scene) (n : NewCall) (route : Route) (raw localTag : List Char) :
    ∀ call ∈ (begin_ cfg look n route raw localTag).live, call.answeredAt.isSome = false := by
  have hnone := answeredAt_recorded cfg (look (candidatesLeft (routed n route).toB2buaCall)).now n route raw
    localTag
  have hafter : (forwardInvite cfg look n route raw localTag).after.answeredAt = none := by
    unfold forwardInvite
    dsimp only
    split
    next => exact hnone
    next =>
      split
      next => exact (aside_failover cfg _ look).answered.trans hnone
      next => exact (aside_failover cfg _ look).answered.trans hnone
  intro call hcall
  rcases left_cases (forwardInvite cfg look n route raw localTag) with hleft | hleft
  · cases hleft.symm.trans hcall
    rw [hafter]
    rfl
  · cases hleft.symm.trans hcall

/-- Once a 2xx was processed an error for the live attempt undoes nothing, in
exactly the runs in which no such error finds the call answered. -/
theorem answered_calls_stand_iff (look : Nat → Scene) (n : NewCall) (route : Route) (raw localTag : List Char)
    (events : List CallEvent) :
    let s := begin_ cfg look n route raw localTag
    (∀ before call event after, met cfg s events = before ++ (call, event) :: after →
      (∃ p ∈ before, answers cfg p.1 p.2 = true) → rejects cfg call event = true →
        ¬ Undoes (onEvent cfg call event)) ↔
    ∀ p ∈ met cfg s events, p.1.answeredAt.isSome = true → rejects cfg p.1 p.2 = false := by
  intro s
  have hanswered {before after : List (SetupCall × CallEvent)} {call : SetupCall} {event : CallEvent}
      (h : met cfg s events = before ++ (call, event) :: after) :
      call.answeredAt.isSome = true ↔ ∃ p ∈ before, answers cfg p.1 p.2 = true := by
    rw [answered_met cfg (unanswered_begin cfg look n route raw localTag) h, Bool.false_or, List.any_eq_true]
  constructor
  · rintro h ⟨call, event⟩ hp hcall
    obtain ⟨before, after, hmet⟩ := List.append_of_mem hp
    apply Bool.eq_false_of_not_eq_true
    intro hrejects
    exact h before call event after hmet ((hanswered hmet).mp hcall) hrejects (undoes_of_rejects hrejects)
  · intro h before call event after hmet hbefore hrejects
    have hp : (call, event) ∈ met cfg s events := by
      rw [hmet]
      exact List.mem_append_right _ List.mem_cons_self
    cases hrejects.symm.trans (h (call, event) hp ((hanswered hmet).mpr hbefore))

def aliceRecorded : SetupCall := recorded bareConfig 0 aliceCall bobsContact aliceInvite ['l']

def aliceAnswered : SetupCall := (onEvent bareConfig aliceRecorded (bobsAnswer 200)).after

/-- A 486 after the 200 ends the call and goes to the caller. -/
theorem answered_call_undone_by_busy :
    ¬ ∀ before call event after,
      met bareConfig (begin_ bareConfig (fun _ => idleScene) aliceCall bobsContact aliceInvite ['l'])
        [bobsAnswer 200, bobsAnswer 486] = before ++ (call, event) :: after →
      (∃ p ∈ before, answers bareConfig p.1 p.2 = true) → rejects bareConfig call event = true →
        ¬ Undoes (onEvent bareConfig call event) := by
  have hstays : (onEvent bareConfig aliceRecorded (bobsAnswer 200)).left = some aliceAnswered :=
    if_pos (by decide)
  have hmet : met bareConfig (begin_ bareConfig (fun _ => idleScene) aliceCall bobsContact aliceInvite ['l'])
      [bobsAnswer 200, bobsAnswer 486] = [(aliceRecorded, bobsAnswer 200)] ++
        (aliceAnswered, bobsAnswer 486) :: [] := by
    change [(aliceRecorded, bobsAnswer 200)] ++
      ((onEvent bareConfig aliceRecorded (bobsAnswer 200)).left.toList.map fun call =>
        (call, bobsAnswer 486)) ++ [] = _
    rw [hstays]
    rfl
  have hanswers : answers bareConfig aliceRecorded (bobsAnswer 200) = true := by decide
  have hrejects : rejects bareConfig aliceAnswered (bobsAnswer 486) = true := by decide
  intro h
  exact h _ _ _ _ hmet ⟨_, List.mem_singleton_self _, hanswers⟩ hrejects (undoes_of_rejects hrejects)

end Runs

end NixiSbc.AnsweredCalls
