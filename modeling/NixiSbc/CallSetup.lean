import NixiSbc.CallManager

namespace NixiSbc.CallSetup

open Stun NetAddr TextFields KeyedTable
open B2bua (B2buaCall CallState CallLeg InviteAttempt Transport FailoverState)
open CallManager (MediaCall)
open Trunks (TrunkId)

/-- A call with what its setup and its teardown read besides: when it was
answered and last alerting, the caller's own INVITE, and the two retry
counters. The reply channel stands for a connection, by a number. -/
structure SetupCall extends MediaCall where
  callerReplyTx : Option Nat
  answeredAt : Option Nat
  alertingAt : Option Nat
  calleeResponded : Bool
  callerOriginalVias : List (List Char)
  callerInviteCseq : Option UInt32
  callerToRaw : Option (List Char)
  authRetryCount : UInt32
  sessionTimerRetryCount : UInt32
  peerReason : Option (List Char)
  deriving DecidableEq

def SetupCall.new (call : MediaCall) (callerReplyTx : Option Nat) : SetupCall where
  toMediaCall := call
  callerReplyTx := callerReplyTx
  answeredAt := none
  alertingAt := none
  calleeResponded := false
  callerOriginalVias := []
  callerInviteCseq := none
  callerToRaw := none
  authRetryCount := 0
  sessionTimerRetryCount := 0
  peerReason := none

/-- The call as `create_call` puts it into the map. -/
def createdCall (draw : UInt64) (inboundCallId inboundTag : List Char) (callerAddr : SocketAddr)
    (callerSdp mediaSessionId : Option (List Char)) (callerReplyTx : Option Nat)
    (callerTransport : Transport) (now : Nat) : SetupCall :=
  .new { MediaCall.new draw inboundCallId inboundTag callerAddr callerSdp callerTransport now with
    mediaSessionId := mediaSessionId
    state := .proceeding } callerReplyTx

/-- What the two legs and the attempts of a call go through, on the call with
its setup. -/
def SetupCall.mapCall (call : SetupCall) (f : B2buaCall → B2buaCall) : SetupCall :=
  { call with toMediaCall := { call.toMediaCall with toB2buaCall := f call.toB2buaCall } }

def attachOutbound (call : SetupCall) (outboundCallId localTag : List Char) (calleeAddr : SocketAddr)
    (calleeReplyTx : Option Nat) (calleeTransport : Transport) : SetupCall :=
  { call with
    outbound := some (.new outboundCallId localTag calleeAddr)
    calleeReplyTx := calleeReplyTx
    calleeDest := some calleeAddr
    calleeTransport := calleeTransport }

def setInboundDialog (call : SetupCall) (fromRaw : List Char) (toRaw callerContact : Option (List Char)) :
    SetupCall :=
  { call with
    inbound := { call.inbound with fromRaw := some fromRaw, remoteTarget := callerContact }
    callerToRaw := toRaw }

def setCallerVias (call : SetupCall) (vias : List (List Char)) (inviteCseq : Option UInt32) : SetupCall :=
  { call with callerOriginalVias := vias, callerInviteCseq := inviteCseq }

/-- The callee's `To`, with its tag, is the identity on both legs. -/
def setEstablishedDialog (call : SetupCall) (outboundFromRaw toRaw : List Char)
    (calleeContact : Option (List Char)) : SetupCall :=
  { call with
    inbound := { call.inbound with toRaw := some toRaw }
    outbound := call.outbound.map fun leg =>
      { leg with fromRaw := some outboundFromRaw, toRaw := some toRaw, remoteTarget := calleeContact } }

def establishInbound (call : SetupCall) (remoteTag : List Char) : SetupCall :=
  { call with inbound := { call.inbound with remoteTag := some remoteTag, established := true } }

def establishOutbound (call : SetupCall) (remoteTag : List Char) : SetupCall :=
  { call with
    outbound := call.outbound.map fun leg => { leg with remoteTag := some remoteTag, established := true }
    state := if call.inbound.established then .connected else call.state }

def handleRinging (call : SetupCall) : SetupCall := { call with state := .ringing }

/-- The first answer stamps the call, a repeated one does not. -/
def handle200Ok (call : SetupCall) (now : Nat) (calleeTag : List Char) : SetupCall :=
  let call := establishOutbound call calleeTag
  { call with answeredAt := call.answeredAt <|> some now }

def outboundEstablished (call : B2buaCall) : Bool := call.outbound.any CallLeg.established

def handleAck (call : SetupCall) : SetupCall :=
  let call := establishInbound call (call.inbound.remoteTag.getD [])
  if outboundEstablished call.toB2buaCall then { call with state := .connected } else call

/-- Beside the caller's leg only the state may change. -/
theorem handleAck_eq (call : SetupCall) :
    handleAck call =
      { establishInbound call (call.inbound.remoteTag.getD []) with
        state := if outboundEstablished call.toB2buaCall then .connected else call.state } := by
  unfold handleAck
  change (if outboundEstablished call.toB2buaCall then _ else _ : SetupCall) = _
  split
  next => rfl
  next => rfl

theorem state_handleAck (call : SetupCall) :
    (handleAck call).state =
      if outboundEstablished call.toB2buaCall then .connected else call.state := by
  rw [handleAck_eq]

theorem failover_handleAck (call : SetupCall) : (handleAck call).failover = call.failover := by
  rw [handleAck_eq]
  rfl

/-- Without the release of the media session. -/
def handleBye (call : SetupCall) : SetupCall := { call with state := .terminating }

def markAlerting (call : SetupCall) (now : Nat) : SetupCall := { call with alertingAt := some now }

def markCalleeResponded (call : SetupCall) : SetupCall := { call with calleeResponded := true }

def markProvisionalReceived (call : SetupCall) : SetupCall :=
  { call with failover := call.failover.map fun fo => { fo with provisionalReceived := true } }

/-- Arm the failover: the other trunks in the order of the routing. -/
def setFailoverCandidates (call : SetupCall) (now : Nat) (candidates : List TrunkId) : SetupCall :=
  { call with failover := some ⟨candidates, 1, now, false⟩ }

/-- What the arm of `handle_response` for 1xx does to the call. -/
def onProvisional (call : SetupCall) (now : Nat) (status : UInt16) : SetupCall :=
  handleRinging
    (if 180 ≤ status then markAlerting (markProvisionalReceived call) now else call)

/-- Take the next candidate and restart the clock of the attempt. -/
def takeNextFailoverCandidate (call : SetupCall) (now : Nat) : Option (TrunkId × SetupCall) :=
  match call.failover with
  | none => none
  | some fo =>
      if fo.provisionalReceived then none
      else
        match fo.candidates with
        | [] => none
        | next :: rest =>
            let fo := { fo with candidates := rest, attempt := fo.attempt + 1, inviteSentAt := now }
            some (next, { call with failover := some fo })

def inviteTimedOut (call : B2buaCall) (now timeout : Nat) : Bool :=
  (call.state = .initiated ∨ call.state = .proceeding) ∧
    call.failover.any fun fo => !fo.provisionalReceived ∧ timeout < now - fo.inviteSentAt

/-- The calls still waiting on their INVITE, each with its attempt and whether
a candidate is left. -/
def inviteAttemptsTimedOut (calls : Table (List Char) SetupCall) (now timeout : Nat) :
    List (List Char × UInt32 × Bool) :=
  collect (fun _ call =>
    if inviteTimedOut call.toB2buaCall now timeout then
      call.failover.map fun fo => (fo.attempt, !fo.candidates.isEmpty)
    else none) calls

end NixiSbc.CallSetup
