import NixiSbc.AttemptRecords

namespace NixiSbc.LateAnswers

open Stun TextScan KeyedTable CallSetup InviteRetries Teardown ResponseHandler CallHandlers RetrySteps StateRuns
open CallLedger (Setup setUp)
open InviteAttempts AttemptRecords
open CallerFinals (isSuccess bareConfig host idleScene aliceCall aliceInvite bobsArrival bobsResponse)
open CallManager (callUuid RecentDialog recentDialogTtl rememberTerminated)
open B2bua (InviteAttempt CallLeg remember maxInviteAttempts)

/-- A call in the map, with every attempt that was ever recorded for it. -/
structure Tracked where
  call : SetupCall
  attempts : List InviteAttempt
  deriving DecidableEq

/-- A call that was torn down: what is kept of it for a while, and every
attempt that was ever recorded for it. -/
structure Ended where
  dialog : RecentDialog
  attempts : List InviteAttempt

/-- The calls in the map and the dialogs that `remember_terminated` keeps. The
list of all calls that ended is history, which no handler reads. -/
structure Exchange where
  clock : Nat
  calls : Table (List Char) Tracked
  recent : List RecentDialog
  ended : List Ended

def Exchange.new : Exchange := ⟨0, ∅, [], []⟩

def findByInboundCallId (calls : Table (List Char) Tracked) (callId : List Char) :
    Option (List Char × Tracked) :=
  (calls.entries.find? fun e => e.2.call.inbound.callId = callId).map fun e => (e.1, e.2)

/-- The last attempt of the dialog that ended last, among those of this Call-ID. -/
def recentAttemptForCallId (recent : List RecentDialog) (now : Nat) (callId : List Char) :
    Option InviteAttempt :=
  if callId = [] then none
  else
    ((recent.reverse.filter fun d => now - d.terminatedAt < recentDialogTtl).find? fun d =>
      d.inboundCallId = callId ∨ callId <:+ d.inboundCallId).bind RecentDialog.lastAttempt

def cancelledReason : List Char := "Q.850;cause=31;text=\"Call already cancelled\"".toList

/-- Call-IDs of the trunk tasks, whose responses are routed to them. -/
def isTaskCallId (callId : List Char) : Bool := "reg-".toList <+: callId ∨ "hc-".toList <+: callId

section

variable (cfg : Config)

/-- A response for no call in the map: a final of the last attempt is answered
over the connection that it came on. -/
def strayResponse (s : Exchange) (a : Arrival) (r : Response) (replyTx : Option Nat) : List Sent :=
  match responseCseq cfg.lower r with
  | none => []
  | some (cseq, method) =>
      if 200 ≤ r.status ∧ toAsciiLowercase method = "invite".toList then
        match recentAttemptForCallId s.recent s.clock (r.callId.getD []) with
        | none => []
        | some attempt =>
            if attempt.cseq ≠ cseq then []
            else if r.status < 300 then
              ackAndByeAnsweredDialog cfg attempt r cseq replyTx cancelledReason a.branches
            else
              (SipBuilder.buildAckForNon2xx cfg.lower attempt.raw (r.toHeader.getD [])).toList.map fun ack =>
                ⟨⟨ack, attempt.dest, attempt.transport, replyTx⟩, .ack⟩
      else []

/-- What a handler leaves behind. A call that it ends leaves the map, and its
last attempt is remembered. -/
def settle (s : Exchange) (uuid : List Char) (attempts : List InviteAttempt) (fx : Effects) : Exchange :=
  let attempts := attempts ++ records cfg fx.sent
  if fx.ended = none then { s with calls := s.calls.insert uuid ⟨fx.after, attempts⟩ }
  else
    let dialog : RecentDialog := ⟨fx.after.inbound.callId, fx.after.outbound.map CallLeg.callId, s.clock,
      fx.after.inviteAttempts.getLast?⟩
    { s with
      calls := s.calls.erase uuid
      recent := rememberTerminated s.recent dialog.inboundCallId dialog.outboundCallId dialog.lastAttempt
        s.clock
      ended := s.ended ++ [⟨dialog, attempts⟩] }

/-- `handle_response`: what it sends, and what it leaves. -/
def respond (s : Exchange) (a : Arrival) (r : Response) (replyTx : Option Nat) : List Sent × Exchange :=
  let callId := r.callId.getD []
  if isTaskCallId callId then ([], s)
  else
    match findByInboundCallId s.calls callId with
    | some (uuid, t) =>
        let fx := handleResponse cfg a t.call r
        (fx.sent, settle cfg s uuid t.attempts fx)
    | none => (strayResponse cfg s a r replyTx, s)

/-- Time passes, the map is iterated in another order from now on, an INVITE
makes a call, a response comes in, or another event finds a call. -/
inductive Happening
  | elapse (ms : Nat)
  | reorder (calls : Table (List Char) Tracked)
  | invite (n : NewCall) (setup : Setup)
  | response (a : Arrival) (r : Response) (replyTx : Option Nat)
  | other (uuid : List Char) (event : CallEvent)

def isResponse : CallEvent → Bool
  | .response _ _ => true
  | _ => false

def step (s : Exchange) : Happening → Exchange
  | .elapse ms => { s with clock := s.clock + ms }
  | .reorder calls => if calls.entries.Perm s.calls.entries then { s with calls := calls } else s
  | .invite n setup => settle cfg s (callUuid n.draw) [] (setUp cfg n setup)
  | .response a r replyTx => (respond cfg s a r replyTx).2
  | .other uuid event =>
      if isResponse event then s
      else
        match s.calls.lookup uuid with
        | none => s
        | some t => settle cfg s uuid t.attempts (onEvent cfg t.call event)

end

section Records

variable {cfg : Config}

theorem foldl_remember (attempts more : List InviteAttempt) :
    more.foldl remember (remembered attempts) = remembered (attempts ++ more) := by
  induction more generalizing attempts with
  | nil => rw [List.foldl_nil, List.append_nil]
  | cons a more ih => rw [List.foldl_cons, remember_remembered, ih, List.append_assoc, List.singleton_append]

theorem getLast_remembered (attempts : List InviteAttempt) :
    (remembered attempts).getLast? = attempts.getLast? := by
  rw [remembered, List.getLast?_drop]
  split
  next h =>
    simp only [maxInviteAttempts] at h
    have hnil : attempts = [] := List.eq_nil_of_length_eq_zero (by omega)
    rw [hnil]
    rfl
  next => rfl

/-- Of the dialogs that are still young, those at the end stay remembered. -/
theorem suffix_rememberTerminated {recent kept : List RecentDialog} (h : kept <:+ recent)
    (hfew : kept.length < 256) {now : Nat} (hyoung : ∀ d ∈ kept, now - d.terminatedAt < recentDialogTtl)
    (inboundCallId : List Char) (outboundCallId : Option (List Char)) (lastAttempt : Option InviteAttempt) :
    kept ++ [⟨inboundCallId, outboundCallId, now, lastAttempt⟩] <:+
      rememberTerminated recent inboundCallId outboundCallId lastAttempt now := by
  have hfilter : kept <:+ recent.filter fun d => now - d.terminatedAt < recentDialogTtl := by
    have hkept := h.filter fun d => decide (now - d.terminatedAt < recentDialogTtl)
    rwa [List.filter_eq_self.mpr fun d hd => decide_eq_true (hyoung d hd)] at hkept
  obtain ⟨older, holder⟩ := hfilter
  unfold rememberTerminated
  dsimp only
  rw [← holder, List.append_assoc]
  generalize hlast : kept ++ [(⟨inboundCallId, outboundCallId, now, lastAttempt⟩ : RecentDialog)] = last
  have hlen : last.length ≤ 256 := by
    rw [← hlast, List.length_append, List.length_singleton]
    omega
  rw [List.drop_append_of_le_length (by rw [List.length_append]; omega)]
  exact List.suffix_append _ _

end Records

section Invariant

variable {cfg : Config} {s : Exchange}

/-- A call remembers its last attempts, and of the calls that ended lately the
last 256 are remembered with their last attempt. -/
structure Sound (s : Exchange) : Prop where
  tracked : ∀ uuid t, s.calls.lookup uuid = some t → t.call.inviteAttempts = remembered t.attempts
  last : ∀ e ∈ s.ended, e.dialog.lastAttempt = e.attempts.getLast?
  past : ∀ e ∈ s.ended, e.dialog.terminatedAt ≤ s.clock
  ordered : s.ended.Pairwise fun e e' => e.dialog.terminatedAt ≤ e'.dialog.terminatedAt
  kept : ∀ before e later, s.ended = before ++ e :: later → later.length < 256 →
    s.clock - e.dialog.terminatedAt < recentDialogTtl → (e :: later).map Ended.dialog <:+ s.recent

theorem sound_new : Sound .new where
  tracked _ _ h := by cases h
  last _ h := absurd h List.not_mem_nil
  past _ h := absurd h List.not_mem_nil
  ordered := .nil
  kept before e later h := absurd h.symm (List.append_ne_nil_of_right_ne_nil _ (List.cons_ne_nil _ _))

theorem Sound.elapse (h : Sound s) (ms : Nat) : Sound { s with clock := s.clock + ms } where
  tracked := h.tracked
  last := h.last
  past e he := Nat.le_trans (h.past e he) (Nat.le_add_right _ _)
  ordered := h.ordered
  kept before e later hended hfew hyoung := by
    refine h.kept before e later hended hfew ?_
    have hpast := h.past e (hended ▸ List.mem_append_right _ List.mem_cons_self)
    dsimp only at hyoung
    omega

theorem Sound.reorder (h : Sound s) {calls : Table (List Char) Tracked}
    (hperm : calls.entries.Perm s.calls.entries) : Sound { s with calls := calls } where
  tracked uuid t ht := h.tracked uuid t ((AList.perm_lookup hperm).symm.trans ht)
  last := h.last
  past := h.past
  ordered := h.ordered
  kept := h.kept

/-- The dialogs that were remembered stay so when one more call ends now. -/
theorem Sound.kept_more (h : Sound s) (inboundCallId : List Char) (outboundCallId : Option (List Char))
    (lastAttempt : Option InviteAttempt) (attempts : List InviteAttempt) {before later : List Ended} {e : Ended}
    (hended : s.ended ++ [⟨⟨inboundCallId, outboundCallId, s.clock, lastAttempt⟩, attempts⟩] =
      before ++ e :: later)
    (hfew : later.length < 256) (hyoung : s.clock - e.dialog.terminatedAt < recentDialogTtl) :
    (e :: later).map Ended.dialog <:+
      rememberTerminated s.recent inboundCallId outboundCallId lastAttempt s.clock := by
  rcases List.eq_nil_or_concat later with rfl | ⟨front, last, rfl⟩
  · -- the call that ends now
    obtain ⟨-, hlast⟩ := List.append_inj' hended rfl
    cases hlast
    exact suffix_rememberTerminated List.nil_suffix (by decide) (fun d hd => absurd hd List.not_mem_nil) _ _ _
  · rw [List.concat_eq_append] at hended hfew ⊢
    rw [← List.cons_append, ← List.append_assoc] at hended
    obtain ⟨hbefore, hlast⟩ := List.append_inj' hended rfl
    cases hlast
    rw [List.length_append, List.length_singleton] at hfew
    rw [← List.cons_append, List.map_append, List.map_singleton]
    refine suffix_rememberTerminated (h.kept before e front hbefore (by omega) hyoung)
      (by rw [List.length_map, List.length_cons]; exact hfew) ?_ _ _ _
    -- those that ended after a young one are no older
    intro d hd
    obtain ⟨e', he', rfl⟩ := List.mem_map.mp hd
    have hordered := h.ordered
    rw [hbefore] at hordered
    have hle : e.dialog.terminatedAt ≤ e'.dialog.terminatedAt := by
      rcases List.mem_cons.mp he' with rfl | he'
      · exact Nat.le_refl _
      · exact List.rel_of_pairwise_cons (List.pairwise_append.mp hordered).2.1 he'
    omega

theorem Sound.settle (h : Sound s) (uuid : List Char) {call : SetupCall} {attempts : List InviteAttempt}
    (hattempts : call.inviteAttempts = remembered attempts) {fx : Effects}
    (hlogged : Logged cfg call fx.after fx.sent) : Sound (settle cfg s uuid attempts fx) := by
  have hafter : fx.after.inviteAttempts = remembered (attempts ++ records cfg fx.sent) := by
    rw [hlogged, hattempts, foldl_remember]
  unfold LateAnswers.settle
  dsimp only
  split
  next =>
    refine ⟨fun uuid' t ht => ?_, h.last, h.past, h.ordered, h.kept⟩
    rw [lookup_insert_eq] at ht
    split at ht
    next =>
      cases ht
      exact hafter
    next => exact h.tracked uuid' t ht
  next =>
    constructor
    · intro uuid' t ht
      exact h.tracked uuid' t (lookup_of_lookup_erase ht)
    · rw [List.forall_mem_append, List.forall_mem_singleton]
      refine ⟨h.last, ?_⟩
      dsimp only
      rw [hafter, getLast_remembered]
    · rw [List.forall_mem_append, List.forall_mem_singleton]
      exact ⟨h.past, Nat.le_refl _⟩
    · rw [List.pairwise_append]
      refine ⟨h.ordered, List.pairwise_singleton _ _, fun e he e' he' => ?_⟩
      rw [List.mem_singleton.mp he']
      exact h.past e he
    · intro before e later hended hfew hyoung
      dsimp only at hended hyoung ⊢
      exact h.kept_more _ _ _ _ hended hfew hyoung

theorem findByInboundCallId_some {calls : Table (List Char) Tracked} {callId uuid : List Char} {t : Tracked}
    (h : findByInboundCallId calls callId = some (uuid, t)) :
    calls.lookup uuid = some t ∧ t.call.inbound.callId = callId := by
  obtain ⟨e, he, heq⟩ := Option.map_eq_some_iff.mp h
  cases heq
  have hcallId := List.find?_some he
  rw [decide_eq_true_iff] at hcallId
  exact ⟨AList.mem_lookup_iff.mpr (List.mem_of_find?_eq_some he), hcallId⟩

theorem Sound.step (h : Sound s) (happening : Happening) : Sound (step cfg s happening) := by
  cases happening with
  | elapse ms => exact h.elapse ms
  | reorder calls =>
      rw [LateAnswers.step]
      split
      next hperm => exact h.reorder hperm
      next => exact h
  | invite n setup => exact h.settle _ (attempts_new n) (logged_setUp n setup)
  | response a r replyTx =>
      rw [LateAnswers.step]
      unfold respond
      dsimp only
      split
      next => exact h
      next =>
        split
        next uuid t hfind =>
          have hlookup := (findByInboundCallId_some hfind).1
          exact h.settle uuid (h.tracked uuid t hlookup) (logged_handleResponse a r)
        next => exact h
  | other uuid event =>
      rw [LateAnswers.step]
      split
      next => exact h
      next =>
        split
        next => exact h
        next t hlookup => exact h.settle uuid (h.tracked uuid t hlookup) (logged_onEvent cfg t.call event)

end Invariant

section Answers

/-- A 2xx for an attempt of a call with this Call-ID: it has the branch and the
CSeq of the INVITE. -/
structure Answers (cfg : Config) (callId : List Char) (attempt : InviteAttempt) (r : Response) : Prop where
  callId : r.callId = some callId
  status : isSuccess r.status = true
  branch : SipBuilder.topViaBranch cfg.lower r.text = attempt.branch
  cseq : ∃ method, responseCseq cfg.lower r = some (attempt.cseq, method) ∧
    toAsciiLowercase method = "invite".toList

/-- The dialog that a 2xx makes is acknowledged and ended, where the attempt was
sent. -/
def EndsDialog (attempt : InviteAttempt) (sent : List Sent) : Prop :=
  ∃ ack bye, sent = [ack, bye] ∧ ack.kind = .ack ∧ bye.kind = .bye ∧
    ack.dest = attempt.dest ∧ bye.dest = attempt.dest

/-- A 2xx for an attempt that others came after, of a call in the map. -/
structure Superseded (cfg : Config) (s : Exchange) (r : Response) (uuid : List Char) (t : Tracked)
    (attempt : InviteAttempt) (later : List InviteAttempt) : Prop where
  live : s.calls.lookup uuid = some t
  attempts : ∃ before, t.attempts = before ++ attempt :: later
  notLast : later ≠ []
  answers : Answers cfg t.call.inbound.callId attempt r

/-- A 2xx for an attempt of a call that was torn down lately, with fewer than 256
torn down after it. -/
structure TornDown (cfg : Config) (s : Exchange) (r : Response) (e : Ended) (later : List Ended)
    (attempt : InviteAttempt) : Prop where
  ended : ∃ before, s.ended = before ++ e :: later
  few : later.length < 256
  young : s.clock - e.dialog.terminatedAt < recentDialogTtl
  tried : attempt ∈ e.attempts
  answers : Answers cfg e.dialog.inboundCallId attempt r

/-- Every 2xx for an attempt that is not the one bridged to the caller is ended. -/
def NoGhost (cfg : Config) (s : Exchange) : Happening → Prop
  | .response a r replyTx =>
      (∀ uuid t attempt later, Superseded cfg s r uuid t attempt later →
        EndsDialog attempt (respond cfg s a r replyTx).1) ∧
      ∀ e later attempt, TornDown cfg s r e later attempt → EndsDialog attempt (respond cfg s a r replyTx).1
  | _ => True

/-- The CSeq is that of a refresh, pending or the last one. -/
def isRefresh (call : SetupCall) (cseq : UInt32) : Bool :=
  isPendingRefresh call.toB2buaCall cseq ∨
    call.sessionTimer.any fun st => st.lastRefresh.any fun refresh => refresh.1 = cseq

/-- The attempt is still remembered, under its own branch, and nothing else has
the Call-ID or the CSeq of its answer. -/
structure TraceableLive (s : Exchange) (uuid : List Char) (t : Tracked) (attempt : InviteAttempt)
    (later : List InviteAttempt) : Prop where
  noTask : isTaskCallId t.call.inbound.callId = false
  alone : ∀ uuid' t', s.calls.lookup uuid' = some t' →
    t'.call.inbound.callId = t.call.inbound.callId → uuid' = uuid
  noRefresh : isRefresh t.call attempt.cseq = false
  remembered : later.length < maxInviteAttempts
  branches : ∀ a ∈ t.attempts, a.branch ≠ none
  distinct : (t.attempts.map fun a => a.branch).Nodup

/-- The last attempt of the call went to the same place under the same CSeq, and
no call in the map or torn down later has the Call-ID. -/
structure TraceableEnded (s : Exchange) (e : Ended) (later : List Ended) (attempt : InviteAttempt) : Prop where
  noTask : isTaskCallId e.dialog.inboundCallId = false
  named : e.dialog.inboundCallId ≠ []
  gone : ∀ uuid t, s.calls.lookup uuid = some t → t.call.inbound.callId ≠ e.dialog.inboundCallId
  alone : ∀ e' ∈ later, ¬ e.dialog.inboundCallId <:+ e'.dialog.inboundCallId
  last : ∃ live, e.attempts.getLast? = some live ∧ live.cseq = attempt.cseq ∧ live.dest = attempt.dest

def Traceable (cfg : Config) (s : Exchange) : Happening → Prop
  | .response _ r _ =>
      (∀ uuid t attempt later, Superseded cfg s r uuid t attempt later →
        TraceableLive s uuid t attempt later) ∧
      ∀ e later attempt, TornDown cfg s r e later attempt → TraceableEnded s e later attempt
  | _ => True

variable {cfg : Config} {s : Exchange} {r : Response}

theorem find_alone {uuid : List Char} {t : Tracked} (hlookup : s.calls.lookup uuid = some t)
    (halone : ∀ uuid' t', s.calls.lookup uuid' = some t' →
      t'.call.inbound.callId = t.call.inbound.callId → uuid' = uuid) :
    findByInboundCallId s.calls t.call.inbound.callId = some (uuid, t) := by
  cases hfind : findByInboundCallId s.calls t.call.inbound.callId with
  | none =>
      rw [findByInboundCallId, Option.map_eq_none_iff, List.find?_eq_none] at hfind
      exact absurd (decide_eq_true rfl) (hfind ⟨uuid, t⟩ (AList.mem_lookup_iff.mp hlookup))
  | some found =>
      obtain ⟨uuid', t'⟩ := found
      obtain ⟨hlookup', hcallId⟩ := findByInboundCallId_some hfind
      have hsame := halone uuid' t' hlookup' hcallId
      subst hsame
      cases hlookup.symm.trans hlookup'
      rfl

theorem endsDialog_ackAndBye {attempt like : InviteAttempt} (hdest : like.dest = attempt.dest) (cseq : UInt32)
    (tx : Option Nat) (reason : List Char) (branches : List Char × List Char) :
    EndsDialog attempt (ackAndByeAnsweredDialog cfg like r cseq tx reason branches) :=
  ⟨_, _, rfl, rfl, rfl, hdest, hdest⟩

variable (cfg) in
theorem notDuplicate {call : SetupCall} {cseq : UInt32} (h : isRefresh call cseq = false) (status : UInt16)
    (responseTo branch localIp : List Char) (localPort : UInt16) :
    isPendingRefresh call.toB2buaCall cseq = false ∧
    B2bua.refreshDuplicateAck cfg.lower cfg.upper call.toB2buaCall cseq status responseTo branch localIp
      localPort = none := by
  obtain ⟨hpending, hlast⟩ := not_or.mp (of_decide_eq_false h)
  refine ⟨Bool.eq_false_of_not_eq_true hpending, ?_⟩
  unfold B2bua.refreshDuplicateAck
  cases htimer : call.sessionTimer with
  | none => rfl
  | some st =>
      cases hrefresh : st.lastRefresh with
      | none => simp [hrefresh]
      | some refresh =>
          have hne : refresh.1 ≠ cseq := by
            intro heq
            apply hlast
            rw [htimer, Option.any_some, hrefresh, Option.any_some]
            exact decide_eq_true heq
          simp [hrefresh, hne]

/-- A superseded attempt that is remembered under its own branch. -/
theorem ends_superseded (hsound : Sound s) {uuid : List Char} {t : Tracked} {attempt : InviteAttempt}
    {later : List InviteAttempt} (h : Superseded cfg s r uuid t attempt later)
    (htrace : TraceableLive s uuid t attempt later) (a : Arrival) (replyTx : Option Nat) :
    EndsDialog attempt (respond cfg s a r replyTx).1 := by
  obtain ⟨before, hattempts⟩ := h.attempts
  obtain ⟨method, hcseq, hmethod⟩ := h.answers.cseq
  obtain ⟨hpending, hduplicate⟩ := notDuplicate cfg htrace.noRefresh r.status (r.toHeader.getD [])
    a.branches.1 cfg.sbcIp cfg.sbcPort
  have hstatus := of_decide_eq_true h.answers.status
  have hclass : B2bua.classifyInviteResponse t.call.toB2buaCall (SipBuilder.topViaBranch cfg.lower r.text)
      attempt.cseq = .stale (some attempt) := by
    have hremembered := hsound.tracked uuid t h.live
    have hbranches := htrace.branches
    have hdistinct := htrace.distinct
    rw [hattempts] at hremembered hbranches hdistinct
    rw [h.answers.branch]
    exact ((attributed_iff hremembered hbranches hdistinct).mpr (.inl htrace.remembered)).2.1 h.notLast
      htrace.remembered
  have hstale : (handleResponse cfg a t.call r).sent =
      handleStaleInviteResponse cfg a t.call r attempt.cseq (some attempt) := by
    unfold handleResponse
    rw [hcseq]
    dsimp only
    rw [if_neg (not_not.mpr hmethod), hpending, if_neg Bool.false_ne_true, hduplicate]
    dsimp only
    rw [hclass]
  unfold respond
  dsimp only
  rw [h.answers.callId, Option.getD_some, htrace.noTask, if_neg Bool.false_ne_true,
    find_alone h.live htrace.alone]
  dsimp only
  rw [hstale]
  unfold handleStaleInviteResponse
  dsimp only
  rw [if_neg fun hprovisional => UInt16.not_le.mpr (UInt16.lt_of_lt_of_le (by decide) hstatus.1) hprovisional.2,
    if_pos hstatus]
  exact endsDialog_ackAndBye rfl _ _ _ _

/-- The dialog is found, for none that ended later has its Call-ID. -/
theorem recentAttempt_kept {recent : List RecentDialog} {now : Nat} {d : RecentDialog}
    {later : List RecentDialog} (hkept : d :: later <:+ recent) (hyoung : now - d.terminatedAt < recentDialogTtl)
    (hnamed : d.inboundCallId ≠ []) (halone : ∀ d' ∈ later, ¬ d.inboundCallId <:+ d'.inboundCallId) :
    recentAttemptForCallId recent now d.inboundCallId = d.lastAttempt := by
  obtain ⟨older, rfl⟩ := hkept
  have hlater : (later.reverse.filter fun d => decide (now - d.terminatedAt < recentDialogTtl)).find? (fun d' =>
      decide (d'.inboundCallId = d.inboundCallId ∨ d.inboundCallId <:+ d'.inboundCallId)) = none := by
    rw [List.find?_eq_none]
    intro d' hd' hmatch
    have hmem := List.mem_reverse.mp (List.mem_of_mem_filter hd')
    rcases of_decide_eq_true hmatch with heq | hsuffix
    · exact halone d' hmem (heq ▸ List.suffix_rfl)
    · exact halone d' hmem hsuffix
  rw [recentAttemptForCallId, if_neg hnamed, List.reverse_append, List.reverse_cons, List.append_assoc,
    List.filter_append, List.find?_append, hlater, Option.none_or, List.singleton_append,
    List.filter_cons_of_pos (by exact decide_eq_true hyoung),
    List.find?_cons_of_pos (by exact decide_eq_true (.inl rfl))]
  rfl

/-- A call that was torn down, when its last attempt went to the same place under
the same CSeq. -/
theorem ends_tornDown (hsound : Sound s) {e : Ended} {later : List Ended} {attempt : InviteAttempt}
    (h : TornDown cfg s r e later attempt) (htrace : TraceableEnded s e later attempt) (a : Arrival)
    (replyTx : Option Nat) : EndsDialog attempt (respond cfg s a r replyTx).1 := by
  obtain ⟨before, hended⟩ := h.ended
  obtain ⟨method, hcseq, hmethod⟩ := h.answers.cseq
  obtain ⟨live, hlive, hsame, hdest⟩ := htrace.last
  have hstatus := of_decide_eq_true h.answers.status
  have hnone : findByInboundCallId s.calls e.dialog.inboundCallId = none := by
    by_contra hsome
    obtain ⟨⟨uuid, t⟩, hfind⟩ := Option.ne_none_iff_exists'.mp hsome
    obtain ⟨hlookup, hcallId⟩ := findByInboundCallId_some hfind
    exact htrace.gone uuid t hlookup hcallId
  have hrecent : recentAttemptForCallId s.recent s.clock e.dialog.inboundCallId = some live := by
    rw [recentAttempt_kept (hsound.kept before e later hended h.few h.young) h.young htrace.named,
      hsound.last e (hended ▸ List.mem_append_right _ List.mem_cons_self), hlive]
    intro d hd
    obtain ⟨e', he', rfl⟩ := List.mem_map.mp hd
    exact htrace.alone e' he'
  unfold respond
  dsimp only
  rw [h.answers.callId, Option.getD_some, htrace.noTask, if_neg Bool.false_ne_true, hnone]
  dsimp only
  unfold strayResponse
  rw [hcseq, h.answers.callId]
  dsimp only
  rw [if_pos ⟨hstatus.1, hmethod⟩, Option.getD_some, hrecent]
  dsimp only
  rw [if_neg (not_not.mpr hsame), if_pos (UInt16.lt_of_le_of_lt hstatus.2 (by decide))]
  exact endsDialog_ackAndBye hdest _ _ _ _

end Answers

/-- In a run in which every late 2xx can be traced to its attempt, each is
acknowledged and ended where the attempt was sent. -/
theorem late_answers_ended (cfg : Config) (happenings : List Happening)
    (h : Throughout (step cfg) (Traceable cfg) .new happenings) :
    Throughout (step cfg) (NoGhost cfg) .new happenings := by
  refine throughout_of_invariant (fun s happening hsound _ => hsound.step happening) ?_ sound_new h
  intro s happening hsound htrace
  cases happening with
  | response a r replyTx =>
      constructor
      · intro uuid t attempt later hghost
        exact ends_superseded hsound hghost (htrace.1 uuid t attempt later hghost) a replyTx
      · intro e later attempt hghost
        exact ends_tornDown hsound hghost (htrace.2 e later attempt hghost) a replyTx
  | _ => trivial

section Sample

def trunkAt (id : Trunks.TrunkId) (n : UInt8) : OutboundTrunk where
  id := id
  name := ['t']
  enabled := true
  host := ['h']
  port := 5060
  resolvedAddr := some (host n)
  numberFormat := .e164
  countryCode := none
  nationalPrefix := none
  transport := .udp
  maxConcurrentCalls := 10
  authRequired := false
  username := none
  password := none

/-- A minute later, with a second trunk to go to. -/
def backupScene : Scene where
  now := 60000
  trunks := ⟨fun id => if id = 2 then some (trunkAt 2 5) else none, by
    intro id t h
    split at h
    next hid => cases h; exact hid.symm
    next => cases h⟩
  getState id := some (.new id)
  draw := 7
  cnonce := 0
  taken := true

def overTrunk : Happening :=
  .invite aliceCall (.forwarded (fun _ => idleScene) (.trunk (trunkAt 1 4) (host 4) [2]) aliceInvite ['l'])

def trunkIsSilent : Happening := .other (callUuid 1) (.inviteTimeout (fun _ => backupScene) 6000)

def callerCancels : Happening :=
  .other (callUuid 1) (.cancel ⟨host 1, .udp, none, some "SIP/2.0 487 Request Terminated\r\n\r\n".toList⟩)

def firstTrunkAnswers : Happening := .response bobsArrival (bobsResponse 200) none

/-- The call has gone to the second trunk. -/
def failedOver : Exchange := [overTrunk, trunkIsSilent].foldl (step bareConfig) .new

theorem failedOver_calls {uuid : List Char} {t : Tracked} (h : failedOver.calls.lookup uuid = some t) :
    uuid = callUuid 1 ∧ t.attempts.length = 2 ∧ isTaskCallId t.call.inbound.callId = false ∧
    (∀ a ∈ t.attempts, isRefresh t.call a.cseq = false) ∧ (∀ a ∈ t.attempts, a.branch ≠ none) ∧
    (t.attempts.map fun a => a.branch).Nodup := by
  have hall : ∀ e ∈ failedOver.calls.entries, e.1 = callUuid 1 ∧ e.2.attempts.length = 2 ∧
      isTaskCallId e.2.call.inbound.callId = false ∧
      (∀ a ∈ e.2.attempts, isRefresh e.2.call a.cseq = false) ∧
      (∀ a ∈ e.2.attempts, a.branch ≠ none) ∧ (e.2.attempts.map fun a => a.branch).Nodup := by decide
  exact hall ⟨uuid, t⟩ (AList.mem_lookup_iff.mp h)

/-- The first trunk answers after all, while the second one is tried. -/
theorem late_answers_ended_superseded :
    (failedOver.calls.lookup (callUuid 1)).isSome = true ∧
    Throughout (step bareConfig) (NoGhost bareConfig) .new [overTrunk, trunkIsSilent, firstTrunkAnswers] := by
  refine ⟨by decide, late_answers_ended bareConfig [overTrunk, trunkIsSilent, firstTrunkAnswers]
    ⟨trivial, trivial, ⟨fun uuid t attempt later h => ?_, fun e later attempt h => ?_⟩, trivial⟩⟩
  · obtain ⟨before, hattempts⟩ := h.attempts
    obtain ⟨huuid, hlength, htask, hrefresh, hbranches, hdistinct⟩ := failedOver_calls h.live
    refine ⟨htask, fun uuid' t' hlookup _ => ?_, hrefresh attempt ?_, ?_, hbranches, hdistinct⟩
    · exact (failedOver_calls hlookup).1.trans huuid.symm
    · rw [hattempts]
      exact List.mem_append_right _ List.mem_cons_self
    · rw [hattempts, List.length_append, List.length_cons] at hlength
      simp only [maxInviteAttempts]
      omega
  · obtain ⟨before, hended⟩ := h.ended
    have hnone : failedOver.ended = [] := List.eq_nil_of_length_eq_zero (by decide)
    exact absurd (hnone.symm.trans hended).symm
      (List.append_ne_nil_of_right_ne_nil _ (List.cons_ne_nil _ _))

/-- The first trunk answers after the caller has given up: the ACK and the BYE go
to the second one. -/
theorem late_answer_ended_elsewhere :
    ¬ Throughout (step bareConfig) (NoGhost bareConfig) .new
      [overTrunk, trunkIsSilent, callerCancels, firstTrunkAnswers] := by
  have hended : ∃ e, (step bareConfig failedOver callerCancels).ended = [e] :=
    List.length_eq_one_iff.mp (by decide)
  obtain ⟨e, he⟩ := hended
  have hfacts : ∀ e ∈ (step bareConfig failedOver callerCancels).ended, e.attempts ≠ [] ∧
      e.dialog.inboundCallId = ['i'] ∧ e.dialog.terminatedAt = 0 ∧ ∀ a ∈ e.attempts.head?,
        SipBuilder.topViaBranch bareConfig.lower (bobsResponse 200).text = a.branch ∧
        responseCseq bareConfig.lower (bobsResponse 200) = some (a.cseq, "INVITE".toList) ∧
        a.dest = host 4 := by decide
  obtain ⟨hne, hcallId, htime, hfirst⟩ := hfacts e (he ▸ List.mem_singleton_self e)
  obtain ⟨first, rest, hattempts⟩ := List.exists_cons_of_ne_nil hne
  obtain ⟨hbranch, hcseq, hdest⟩ := hfirst first (by rw [hattempts]; rfl)
  have hanswers : Answers bareConfig e.dialog.inboundCallId first (bobsResponse 200) :=
    ⟨by rw [hcallId]; rfl, rfl, hbranch, "INVITE".toList, hcseq, by decide⟩
  rintro ⟨-, -, -, hghost, -⟩
  have hends := hghost.2 e [] first
    ⟨⟨[], he⟩, by decide, by rw [htime]; decide, by rw [hattempts]; exact List.mem_cons_self, hanswers⟩
  obtain ⟨ack, bye, hsent, -, -, hack, -⟩ := hends
  have hmem : ack ∈ (respond bareConfig (step bareConfig failedOver callerCancels) bobsArrival
      (bobsResponse 200) none).1 := hsent ▸ List.mem_cons_self
  have helsewhere : ∀ m ∈ (respond bareConfig (step bareConfig failedOver callerCancels) bobsArrival
      (bobsResponse 200) none).1, m.dest = host 5 := by decide
  have hhosts : host 5 ≠ host 4 := by decide
  exact hhosts ((helsewhere ack hmem).symm.trans (hack.trans hdest))

end Sample

end NixiSbc.LateAnswers
