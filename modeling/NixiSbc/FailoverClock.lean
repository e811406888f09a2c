import NixiSbc.CallSetup
import NixiSbc.StateRuns

namespace NixiSbc.FailoverClock

open Stun KeyedTable StateRuns RawSip CallSetup
open B2bua (B2buaCall CallState FailoverState Transport pushInviteAttempt)
open CallManager (MediaCall)
open Trunks (TrunkId)

/-- What happens to the outbound INVITE of a call. -/
inductive SetupEvent
  | push (raw : List Char) (dest : SocketAddr) (transport : Transport) (trunkId : Option TrunkId)
  | provisional (status : UInt16)
  | answer (calleeTag : List Char)
  | ack

inductive ClockEvent
  | call (uuid : List Char) (event : SetupEvent)
  | tick (ms : Nat)

/-- What an observer knows of the live attempt of a call: when it was sent, and
whether a provisional response of 180 or above or an answer came for it. -/
structure Watch where
  sentAt : Nat
  progressed : Bool
  answered : Bool

structure Clocked where
  calls : Table (List Char) SetupCall
  watches : Table (List Char) Watch
  now : Nat

/-- The response arms mark the callee as responsive first. -/
def onSetup (U : Lowering) (call : SetupCall) (now : Nat) : SetupEvent → SetupCall
  | .push raw dest transport trunkId =>
      call.mapCall fun c => pushInviteAttempt U c now raw dest transport trunkId
  | .provisional status => onProvisional (markCalleeResponded call) now status
  | .answer calleeTag => handle200Ok (markCalleeResponded call) now calleeTag
  | .ack => handleAck call

def Watch.note (w : Watch) (now : Nat) : SetupEvent → Watch
  | .push _ _ _ _ => ⟨now, false, false⟩
  | .provisional status => { w with progressed := w.progressed || decide (180 ≤ status) }
  | .answer _ => { w with answered := true }
  | .ack => w

def step (U : Lowering) (s : Clocked) : ClockEvent → Clocked
  | .call uuid e =>
      { s with
        calls := modify uuid (fun call => onSetup U call s.now e) s.calls
        watches := modify uuid (fun w => w.note s.now e) s.watches }
  | .tick ms => { s with now := s.now + ms }

/-- The attempt is older than the timeout, and no one is alerted or has answered. -/
def Watch.Due (w : Watch) (now timeout : Nat) : Prop :=
  timeout < now - w.sentAt ∧ w.progressed = false ∧ w.answered = false

/-- From this state on, however long one waits, the list holds the call exactly
when its attempt is due. -/
def Timely (uuid : List Char) (s : Clocked) : Prop :=
  ∀ wait timeout,
    uuid ∈ (inviteAttemptsTimedOut s.calls (s.now + wait) timeout).map Prod.fst ↔
      ∃ w, s.watches.lookup uuid = some w ∧ w.Due (s.now + wait) timeout

/-- The call as `handle_invite` leaves it: created, armed, with the INVITE
recorded and the outbound leg attached. -/
def armedCall (U : Lowering) (call : SetupCall) (now : Nat) (candidates : List TrunkId)
    (raw : List Char) (dest : SocketAddr) (transport : Transport) (trunkId : Option TrunkId)
    (localTag : List Char) : SetupCall :=
  let call := setFailoverCandidates call now candidates
  let call := call.mapCall fun c => pushInviteAttempt U c now raw dest transport trunkId
  attachOutbound call call.inbound.callId localTag dest none transport

/-- No one is alerted and no one has answered, as the call itself tells. -/
def running (call : B2buaCall) : Bool :=
  (call.state = .initiated ∨ call.state = .proceeding) ∧
    call.failover.any fun fo => !fo.provisionalReceived

def Watch.running (w : Watch) : Bool := !w.progressed && !w.answered

theorem inviteTimedOut_eq {call : B2buaCall} {fo : FailoverState} (h : call.failover = some fo)
    (now timeout : Nat) :
    inviteTimedOut call now timeout = (running call && decide (timeout < now - fo.inviteSentAt)) := by
  simp [inviteTimedOut, running, h, Bool.and_assoc]

theorem listed_iff (calls : Table (List Char) SetupCall) (uuid : List Char) (now timeout : Nat) :
    uuid ∈ (inviteAttemptsTimedOut calls now timeout).map Prod.fst ↔
      ∃ call, calls.lookup uuid = some call ∧ inviteTimedOut call.toB2buaCall now timeout = true := by
  rw [inviteAttemptsTimedOut, mem_keys_collect]
  refine exists_congr fun call => and_congr_right fun _ => ?_
  split
  next htimed =>
    rw [Option.isSome_map, eq_true htimed, iff_true]
    -- only a call whose failover is armed is timed out
    cases hfo : call.failover with
    | some fo => rfl
    | none => simp [inviteTimedOut, hfo] at htimed
  next htimed => simpa using htimed

/-- The call and the observer tell the same story of the live attempt. -/
structure Tracks (uuid : List Char) (s : Clocked) (call : SetupCall) (fo : FailoverState) (w : Watch) :
    Prop where
  live : s.calls.lookup uuid = some call
  watched : s.watches.lookup uuid = some w
  armed : call.failover = some fo
  sentAt : fo.inviteSentAt = w.sentAt

theorem Watch.due_iff (w : Watch) (now timeout : Nat) :
    w.Due now timeout ↔ w.running = true ∧ timeout < now - w.sentAt := by
  simp [Watch.Due, Watch.running, and_comm]

theorem timely_iff {uuid : List Char} {s : Clocked} {call : SetupCall} {fo : FailoverState} {w : Watch}
    (h : Tracks uuid s call fo w) : Timely uuid s ↔ running call.toB2buaCall = w.running := by
  have hlisted : ∀ now timeout, uuid ∈ (inviteAttemptsTimedOut s.calls now timeout).map Prod.fst ↔
      running call.toB2buaCall = true ∧ timeout < now - w.sentAt := by
    intro now timeout
    rw [listed_iff, h.live]
    simp only [Option.some.injEq, exists_eq_left', inviteTimedOut_eq h.armed, h.sentAt, Bool.and_eq_true,
      decide_eq_true_eq]
  simp only [Timely, hlisted, h.watched, Option.some.injEq, exists_eq_left', Watch.due_iff]
  constructor
  · intro hsame
    -- when the attempt is old enough only the two flags are left
    have hold : 0 < s.now + (w.sentAt + 1) - w.sentAt := by omega
    rw [Bool.eq_iff_iff]
    simpa [hold] using hsame (w.sentAt + 1) 0
  · intro hsame wait timeout
    rw [hsame]

/-- The events after which the call still tells the truth about its attempt. -/
def InStep (call : SetupCall) (w : Watch) : SetupEvent → Prop
  | .push _ _ _ _ => w.running = true
  | .provisional status => 180 ≤ status ∨ w.running = false
  | .answer _ => call.inbound.established = true ∨ w.running = false
  | .ack => True

def Regular (uuid : List Char) (s : Clocked) : ClockEvent → Prop
  | .call target e => target = uuid → ∀ call w, s.calls.lookup uuid = some call →
      s.watches.lookup uuid = some w → InStep call w e
  | .tick _ => True

theorem lookup_call (U : Lowering) (s : Clocked) (uuid target : List Char) (e : SetupEvent) :
    (step U s (.call target e)).calls.lookup uuid = (s.calls.lookup uuid).map fun call =>
      if uuid = target then onSetup U call s.now e else call :=
  lookup_modify_eq _ _ _ _

theorem lookup_watch (U : Lowering) (s : Clocked) (uuid target : List Char) (e : SetupEvent) :
    (step U s (.call target e)).watches.lookup uuid = (s.watches.lookup uuid).map fun w =>
      if uuid = target then w.note s.now e else w :=
  lookup_modify_eq _ _ _ _

theorem failover_onProvisional (call : SetupCall) (now : Nat) (status : UInt16) :
    (onProvisional call now status).failover =
      if 180 ≤ status then call.failover.map fun fo => { fo with provisionalReceived := true }
      else call.failover := by
  unfold onProvisional
  split
  next => rfl
  next => rfl

/-- An event for the call keeps the two in step about when the attempt was sent. -/
theorem tracks_call (U : Lowering) {uuid : List Char} {s : Clocked} {call : SetupCall} {fo : FailoverState}
    {w : Watch} (h : Tracks uuid s call fo w) (e : SetupEvent) :
    ∃ fo', Tracks uuid (step U s (.call uuid e)) (onSetup U call s.now e) fo' (w.note s.now e) := by
  have hlive : (step U s (.call uuid e)).calls.lookup uuid = some (onSetup U call s.now e) := by
    rw [lookup_call, h.live, Option.map_some, if_pos rfl]
  have hwatched : (step U s (.call uuid e)).watches.lookup uuid = some (w.note s.now e) := by
    rw [lookup_watch, h.watched, Option.map_some, if_pos rfl]
  suffices hfo : ∃ fo', (onSetup U call s.now e).failover = some fo' ∧
      fo'.inviteSentAt = (w.note s.now e).sentAt by
    obtain ⟨fo', harmed, hsent⟩ := hfo
    exact ⟨fo', hlive, hwatched, harmed, hsent⟩
  cases e with
  | push raw dest transport trunkId =>
      refine ⟨{ fo with inviteSentAt := s.now }, ?_, rfl⟩
      change call.failover.map _ = _
      rw [h.armed, Option.map_some]
  | provisional status =>
      change ∃ fo', (onProvisional (markCalleeResponded call) s.now status).failover = some fo' ∧
        fo'.inviteSentAt = w.sentAt
      rw [failover_onProvisional]
      change ∃ fo', (if 180 ≤ status then call.failover.map _ else call.failover) = some fo' ∧ _
      rw [h.armed]
      split
      next => exact ⟨_, rfl, h.sentAt⟩
      next => exact ⟨_, rfl, h.sentAt⟩
  | answer calleeTag => exact ⟨fo, h.armed, h.sentAt⟩
  | ack => exact ⟨fo, (failover_handleAck call).trans h.armed, h.sentAt⟩

theorem running_push (U : Lowering) (call : SetupCall) (now : Nat) (raw : List Char) (dest : SocketAddr)
    (transport : Transport) (trunkId : Option TrunkId) :
    running (onSetup U call now (.push raw dest transport trunkId)).toB2buaCall =
      running call.toB2buaCall := by
  simp only [running, onSetup, SetupCall.mapCall, pushInviteAttempt, Option.any_map]

theorem running_of_state {call : B2buaCall} (h : call.state = .ringing ∨ call.state = .connected) :
    running call = false := by
  rcases h with h | h
  · simp [running, h]
  · simp [running, h]

theorem running_answer (U : Lowering) (call : SetupCall) (now : Nat) (calleeTag : List Char) :
    running (onSetup U call now (.answer calleeTag)).toB2buaCall =
      (!call.inbound.established && running call.toB2buaCall) := by
  cases hest : call.inbound.established with
  | true =>
      apply running_of_state
      right
      change (if call.inbound.established then CallState.connected else call.state) = _
      rw [if_pos hest]
  | false =>
      have hstate : (onSetup U call now (.answer calleeTag)).state = call.state := by
        change (if call.inbound.established then CallState.connected else call.state) = _
        rw [hest]
        rfl
      simp only [running, hstate]
      rfl

theorem running_ack (U : Lowering) (call : SetupCall) (now : Nat) :
    running (onSetup U call now .ack).toB2buaCall =
      (!outboundEstablished call.toB2buaCall && running call.toB2buaCall) := by
  change running (handleAck call).toB2buaCall = _
  cases hest : outboundEstablished call.toB2buaCall with
  | true =>
      apply running_of_state
      right
      rw [state_handleAck, if_pos hest]
  | false =>
      have hstate : (handleAck call).state = call.state := by
        rw [state_handleAck, hest]
        rfl
      simp only [running, hstate, failover_handleAck]
      rfl

/-- What one event of the call leaves of the agreement, and exactly when. -/
theorem running_onSetup_iff (U : Lowering) {call : SetupCall} {w : Watch} (now : Nat)
    (hrun : running call.toB2buaCall = w.running)
    (hleg : outboundEstablished call.toB2buaCall = true → w.running = false) (e : SetupEvent) :
    running (onSetup U call now e).toB2buaCall = (w.note now e).running ↔ InStep call w e := by
  cases e with
  | push raw dest transport trunkId =>
      rw [running_push, hrun]
      exact Iff.rfl
  | provisional status =>
      have hringing : running (onSetup U call now (.provisional status)).toB2buaCall = false :=
        running_of_state (.inl rfl)
      rw [hringing, InStep]
      by_cases hstatus : 180 ≤ status
      · simp [Watch.note, Watch.running, hstatus]
      · have hnote : (w.note now (.provisional status)).running = w.running := by
          simp [Watch.note, Watch.running, hstatus]
        rw [hnote, or_iff_right hstatus]
        exact eq_comm
  | answer calleeTag =>
      rw [running_answer, hrun]
      have hstopped : (w.note now (.answer calleeTag)).running = false := by
        simp [Watch.note, Watch.running]
      rw [hstopped, InStep]
      cases call.inbound.established <;> simp
  | ack =>
      rw [running_ack, hrun, InStep, iff_true]
      cases hest : outboundEstablished call.toB2buaCall with
      | true => exact (hleg hest).symm
      | false => rfl

theorem outboundEstablished_onSetup (U : Lowering) (call : SetupCall) (now : Nat) (e : SetupEvent)
    (h : ∀ calleeTag, e ≠ .answer calleeTag) :
    outboundEstablished (onSetup U call now e).toB2buaCall = outboundEstablished call.toB2buaCall := by
  cases e with
  | push raw dest transport trunkId => rfl
  | provisional status =>
      change outboundEstablished (onProvisional (markCalleeResponded call) now status).toB2buaCall = _
      unfold onProvisional
      split
      next => rfl
      next => rfl
  | answer calleeTag => exact absurd rfl (h calleeTag)
  | ack =>
      change outboundEstablished (handleAck call).toB2buaCall = _
      unfold handleAck
      change outboundEstablished (if _ then _ else _ : SetupCall).toB2buaCall = _
      split
      next => rfl
      next => rfl

/-- A leg that is up belongs to an attempt that was answered. -/
theorem leg_onSetup (U : Lowering) {call : SetupCall} {w : Watch} (now : Nat)
    (hleg : outboundEstablished call.toB2buaCall = true → w.running = false) {e : SetupEvent}
    (hin : InStep call w e) :
    outboundEstablished (onSetup U call now e).toB2buaCall = true → (w.note now e).running = false := by
  intro hest
  cases e with
  | push raw dest transport trunkId =>
      rw [outboundEstablished_onSetup U call now _ (fun _ h => by cases h)] at hest
      exact absurd hin (by simp [InStep, hleg hest])
  | provisional status =>
      rw [outboundEstablished_onSetup U call now _ (fun _ h => by cases h)] at hest
      have hstopped := hleg hest
      simp only [Watch.note, Watch.running, Bool.and_eq_false_imp, Bool.not_eq_true',
        Bool.or_eq_false_iff, Bool.not_eq_false'] at hstopped ⊢
      exact fun h => hstopped h.1
  | answer calleeTag => simp [Watch.note, Watch.running]
  | ack =>
      rw [outboundEstablished_onSetup U call now _ (fun _ h => by cases h)] at hest
      exact hleg hest

/-- The call tells the truth about its live attempt. -/
def Sound (uuid : List Char) (s : Clocked) : Prop :=
  ∃ call fo w, Tracks uuid s call fo w ∧ running call.toB2buaCall = w.running ∧
    (outboundEstablished call.toB2buaCall = true → w.running = false)

theorem timely_step_iff (U : Lowering) {uuid : List Char} {s : Clocked} (h : Sound uuid s)
    (e : ClockEvent) : Timely uuid (step U s e) ↔ Regular uuid s e := by
  obtain ⟨call, fo, w, htracks, hrun, hleg⟩ := h
  cases e with
  | tick ms =>
      have h' : Tracks uuid (step U s (.tick ms)) call fo w :=
        ⟨htracks.live, htracks.watched, htracks.armed, htracks.sentAt⟩
      exact iff_of_true ((timely_iff h').mpr hrun) trivial
  | call target e =>
      by_cases htarget : target = uuid
      · subst htarget
        obtain ⟨fo', h'⟩ := tracks_call U htracks e
        rw [timely_iff h', running_onSetup_iff U s.now hrun hleg]
        simp [Regular, htracks.live, htracks.watched]
      · have h' : Tracks uuid (step U s (.call target e)) call fo w := by
          refine ⟨?_, ?_, htracks.armed, htracks.sentAt⟩
          · rw [lookup_call, htracks.live, Option.map_some, if_neg (Ne.symm htarget)]
          · rw [lookup_watch, htracks.watched, Option.map_some, if_neg (Ne.symm htarget)]
        exact iff_of_true ((timely_iff h').mpr hrun) (fun h => absurd h htarget)

theorem sound_step (U : Lowering) {uuid : List Char} {s : Clocked} (h : Sound uuid s) {e : ClockEvent}
    (htimely : Timely uuid (step U s e)) : Sound uuid (step U s e) := by
  have hregular := (timely_step_iff U h e).mp htimely
  obtain ⟨call, fo, w, htracks, hrun, hleg⟩ := h
  cases e with
  | tick ms =>
      exact ⟨call, fo, w, ⟨htracks.live, htracks.watched, htracks.armed, htracks.sentAt⟩, hrun, hleg⟩
  | call target e =>
      by_cases htarget : target = uuid
      · subst htarget
        obtain ⟨fo', h'⟩ := tracks_call U htracks e
        have hin := hregular rfl call w htracks.live htracks.watched
        exact ⟨_, fo', _, h', (timely_iff h').mp htimely, leg_onSetup U s.now hleg hin⟩
      · refine ⟨call, fo, w, ⟨?_, ?_, htracks.armed, htracks.sentAt⟩, hrun, hleg⟩
        · rw [lookup_call, htracks.live, Option.map_some, if_neg (Ne.symm htarget)]
        · rw [lookup_watch, htracks.watched, Option.map_some, if_neg (Ne.symm htarget)]

/-- Any other calls, and one that was just armed and sent. -/
def armedAt (others : Clocked) (uuid : List Char) (call : SetupCall) : Clocked :=
  { others with
    calls := others.calls.insert uuid call
    watches := others.watches.insert uuid ⟨others.now, false, false⟩ }

theorem sound_armed (U : Lowering) (others : Clocked) (draw : UInt64)
    (inboundCallId inboundTag : List Char) (callerAddr : SocketAddr)
    (callerSdp mediaSessionId : Option (List Char)) (callerReplyTx : Option Nat)
    (callerTransport : Transport) (uuid : List Char) (candidates : List TrunkId) (raw : List Char)
    (dest : SocketAddr) (transport : Transport) (trunkId : Option TrunkId) (localTag : List Char) :
    Sound uuid (armedAt others uuid (armedCall U
      (createdCall draw inboundCallId inboundTag callerAddr callerSdp mediaSessionId callerReplyTx
        callerTransport others.now)
      others.now candidates raw dest transport trunkId localTag)) :=
  ⟨_, _, _, ⟨AList.lookup_insert _, AList.lookup_insert _, rfl, rfl⟩, rfl, fun h => by cases h⟩

/-- In every run of a call that `handle_invite` armed, beside any other calls,
the clock is right all along exactly when a response below 180 comes only after
one of 180 or above or an answer, an answer only after one of these or after the
caller's ACK, and a new attempt only while the one before is still waiting. -/
theorem failover_clock_iff (U : Lowering) (others : Clocked) (draw : UInt64)
    (inboundCallId inboundTag : List Char) (callerAddr : SocketAddr)
    (callerSdp mediaSessionId : Option (List Char)) (callerReplyTx : Option Nat)
    (callerTransport : Transport) (uuid : List Char) (candidates : List TrunkId) (raw : List Char)
    (dest : SocketAddr) (transport : Transport) (trunkId : Option TrunkId) (localTag : List Char)
    (events : List ClockEvent) :
    let start := armedAt others uuid (armedCall U
      (createdCall draw inboundCallId inboundTag callerAddr callerSdp mediaSessionId callerReplyTx
        callerTransport others.now)
      others.now candidates raw dest transport trunkId localTag)
    Timely uuid start ∧
      (Throughout (step U) (fun s e => Timely uuid (step U s e)) start events ↔
        Throughout (step U) (Regular uuid) start events) := by
  have hsound := sound_armed U others draw inboundCallId inboundTag callerAddr callerSdp mediaSessionId
    callerReplyTx callerTransport uuid candidates raw dest transport trunkId localTag
  refine ⟨?_, throughout_iff (I := Sound uuid) (fun s e hs => timely_step_iff U hs e)
    (fun s e hs htimely => sound_step U hs htimely) hsound⟩
  obtain ⟨call, fo, w, htracks, hrun, -⟩ := hsound
  exact (timely_iff htracks).mpr hrun

/-- A call toward a trunk, with one more to try, sent at time zero. -/
def sentCall : Clocked :=
  armedAt ⟨∅, ∅, 0⟩ ['u'] (armedCall asciiOnly
    (createdCall 1 "c@h".toList "t".toList (NetAddr.ofOctets 192 0 2 1 5060) none none none .udp 0)
    0 [2] "INVITE".toList (NetAddr.ofOctets 198 51 100 10 5060) .udp (some 1) "l".toList)

/-- After a 100 Trying alone the call is not listed, whatever time has passed;
and an answered call whose ACK is on its way is listed after five seconds. -/
theorem trying_stops_clock :
    ¬ Timely ['u'] (step asciiOnly sentCall (.call ['u'] (.provisional 100))) ∧
    (inviteAttemptsTimedOut (step asciiOnly sentCall (.call ['u'] (.provisional 100))).calls
      3600000 5000 = []) ∧
    ¬ Timely ['u'] (step asciiOnly sentCall (.call ['u'] (.answer ['b']))) ∧
    inviteAttemptsTimedOut (step asciiOnly sentCall (.call ['u'] (.answer ['b']))).calls 5001 5000 =
      [(['u'], 1, true)] := by
  have hsound : Sound ['u'] sentCall := sound_armed ..
  refine ⟨fun h => ?_, by decide, fun h => ?_, by decide⟩
  · have hin := (timely_step_iff asciiOnly hsound _).mp h rfl _ _ rfl rfl
    rcases hin with hin | hin
    · exact absurd hin (by decide)
    · cases hin
  · have hin := (timely_step_iff asciiOnly hsound _).mp h rfl _ _ rfl rfl
    rcases hin with hin | hin
    · cases hin
    · cases hin

end NixiSbc.FailoverClock
