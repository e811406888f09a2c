import NixiSbc.AckRelay
import NixiSbc.ResponseHandler

namespace NixiSbc.CallHandlers

open Stun KeyedTable CallSetup InviteTexts InviteRetries Teardown ResponseHandler
open AckRelay (AckRequest relayedAck)
open B2bua (B2buaCall Transport buildRelayByeTowardCallee buildRelayByeTowardCaller refreshCall)
open Trunks (TrunkId)

/-- What `handle_invite` knows of the call that it creates: the arguments of
`create_call` and the headers that it keeps for the caller. -/
structure NewCall where
  draw : UInt64
  callId : List Char
  tag : List Char
  source : SocketAddr
  sdp : Option (List Char)
  mediaSessionId : Option (List Char)
  replyTx : Option Nat
  transport : Transport
  now : Nat
  fromRaw : Option (List Char)
  toRaw : Option (List Char)
  contact : Option (List Char)
  vias : List (List Char)
  cseq : Option UInt32

/-- The call once the identity of its caller is kept, which takes a From. -/
def NewCall.call (n : NewCall) : SetupCall :=
  let call := createdCall n.draw n.callId n.tag n.source n.sdp n.mediaSessionId n.replyTx n.transport n.now
  match n.fromRaw with
  | some fromRaw => setInboundDialog call fromRaw n.toRaw n.contact
  | none => call

/-- Where the INVITE goes: a registered contact, or a trunk with the others to
fail over to. -/
inductive Route
  | contact (dest : SocketAddr) (transport : Transport) (replyTx : Option Nat)
  | trunk (t : OutboundTrunk) (dest : SocketAddr) (candidates : List TrunkId)

def Route.dest : Route → SocketAddr
  | .contact dest _ _ => dest
  | .trunk _ dest _ => dest

def Route.transport : Route → Transport
  | .contact _ transport _ => transport
  | .trunk t _ _ => t.transport

def Route.replyTx : Route → Option Nat
  | .contact _ _ replyTx => replyTx
  | .trunk _ _ _ => none

def Route.trunkId : Route → Option TrunkId
  | .contact _ _ _ => none
  | .trunk t _ _ => some t.id

/-- The call when its route is known; a trunk is noted with an empty INVITE. -/
def routed (n : NewCall) (route : Route) : SetupCall :=
  let call :=
    match route with
    | .contact _ _ _ => n.call
    | .trunk t _ candidates =>
        { setFailoverCandidates n.call n.now candidates with
          originalOutboundInvite := some []
          trunkId := some t.id
          trunkCounted := some t.name }
  setCallerVias call n.vias n.cseq

/-- A CANCEL: where it is from, its Reason, and the 487 that can be built for
it, if one can. -/
structure CancelRequest where
  source : SocketAddr
  transport : Transport
  reason : Option (List Char)
  response487 : Option (List Char)

/-- What makes the SBC itself hang up, whatever the state of the call. -/
inductive Trigger
  | maxDuration
  | shutdown
  | adminKick
  | mediaUnavailable
  deriving DecidableEq

def Trigger.outcome : Trigger → CallOutcome
  | .maxDuration => .maxDuration
  | .shutdown => .shutdown
  | .adminKick => .adminKick
  | .mediaUnavailable => .mediaUnavailable

/-- What may happen to a call in the map: the messages that are found to be for
it, the periodic checks, and the ends that the SBC itself brings about. -/
inductive CallEvent
  | response (a : Arrival) (r : Response)
  | ack (request : AckRequest) (draw : UInt32)
  | bye (byCaller : Bool) (reason : Option (List Char)) (relayed branch : List Char)
  | cancel (request : CancelRequest)
  | inviteTimeout (look : Nat → Scene) (timeout : Nat)
  | setupTimeout (now limit : Nat) (branches : List Char × List Char)
  | rtpTimeout (branches : List Char × List Char)
  | hangup (trigger : Trigger) (branches : List Char × List Char)
  | closed (peer : SocketAddr) (branch : List Char)
  | refresh (now : Nat) (branch : List Char)

def timerC : Nat := 180 * 1000

def isWebSocket (t : Transport) : Bool := t = .ws ∨ t = .wss

section

variable (cfg : Config)

/-- The call with its first attempt and its outbound leg. -/
def recorded (now : Nat) (n : NewCall) (route : Route) (raw localTag : List Char) : SetupCall :=
  attachOutbound (pushAttempt cfg (routed n route) now raw route.dest route.transport route.trunkId)
    n.callId localTag route.dest route.replyTx route.transport

/-- The end of `handle_invite`: the attempt is recorded, then sent; a trunk that
cannot be reached is failed over from, and with none left the caller gets a 503. -/
def forwardInvite (look : Nat → Scene) (n : NewCall) (route : Route) (raw localTag : List Char) :
    Effects :=
  let scene := look (candidatesLeft (routed n route).toB2buaCall)
  let call := recorded cfg scene.now n route raw localTag
  let sent : Sent := ⟨⟨raw, route.dest, route.transport, route.replyTx⟩,
    .invite .first route.trunkId scene.taken⟩
  if scene.taken then ⟨call, [sent], [], none⟩
  else
    let retried := failoverToNextTrunk cfg look call
    if retried.1 then ⟨retried.2.1, sent :: retried.2.2, [], none⟩
    else
      ⟨retried.2.1, sent :: retried.2.2,
        ((finalTowardCaller cfg retried.2.1 503 none).map (.response 503)).toList, some (.refused 503)⟩

def setPeerReason (call : SetupCall) (reason : Option (List Char)) : SetupCall :=
  { call with peerReason := reason <|> call.peerReason }

/-- The BYE goes on to the other side, as a new one where the dialog is known. -/
def onBye (call : SetupCall) (byCaller : Bool) (reason : Option (List Char)) (relayed branch : List Char) :
    Effects :=
  let ended := some (CallOutcome.normalClearing byCaller)
  let target := call.calleeDest
  let call := handleBye call
  if byCaller then
    match target with
    | none => ⟨setPeerReason call reason, [], [], ended⟩
    | some dest =>
        let bye := buildRelayByeTowardCallee cfg.lower cfg.upper call.toB2buaCall branch cfg.sbcIp
          cfg.sbcPort reason
        ⟨setPeerReason (call.mapCall fun _ => bye.2) reason,
          [⟨⟨bye.1.getD relayed, dest, call.calleeTransport, call.calleeReplyTx⟩, .bye⟩], [], ended⟩
  else
    let bye := buildRelayByeTowardCaller cfg.upper call.toB2buaCall branch cfg.sbcIp cfg.sbcPort reason
    ⟨setPeerReason (call.mapCall fun _ => bye.2) reason, [], [.bye (bye.1.getD relayed)], ended⟩

/-- What `handle_cancel` takes for an answered INVITE. -/
def pastCancel (call : SetupCall) : Bool :=
  outboundEstablished call.toB2buaCall ∨ call.state = .connected ∨ call.state = .terminating ∨
    call.state = .terminated

/-- The CANCEL of the live attempt, and the 487 back to where the CANCEL is
from. -/
def onCancel (call : SetupCall) (request : CancelRequest) : Effects :=
  if pastCancel call then unchanged call
  else
    let cancels : List Sent :=
      match call.inviteAttempts.getLast? with
      | some a => (buildCancel cfg.lower a.raw).toList.map fun m =>
          ⟨⟨m, a.dest, a.transport, call.calleeReplyTx⟩, .cancel⟩
      | none => []
    let toCaller :=
      if request.source = call.callerSource ∧ request.transport = call.callerTransport then
        request.response487.toList.map (.response 487)
      else []
    ⟨setPeerReason call request.reason, cancels, toCaller, some .cancelled⟩

/-- One call of `check_invite_failover`; a call without candidates is left to
the setup timeout. -/
def onInviteTimeout (look : Nat → Scene) (timeout : Nat) (call : SetupCall) : Effects :=
  let scene := look (candidatesLeft call.toB2buaCall)
  if inviteTimedOut call.toB2buaCall scene.now timeout ∧ candidatesLeft call.toB2buaCall ≠ 0 then
    let retried := failoverToNextTrunk cfg look call
    ⟨retried.2.1, retried.2.2, [], none⟩
  else unchanged call

/-- Ringing has its own limit. -/
def setupOverdue (call : SetupCall) (now limit : Nat) : Bool :=
  match call.alertingAt with
  | none => limit < now - call.startedAt
  | some since => timerC < now - since

def setupTimedOut (call : SetupCall) (now limit : Nat) : Bool :=
  call.answeredAt = none ∧
    (call.state = .initiated ∨ call.state = .proceeding ∨ call.state = .ringing) ∧
    setupOverdue call now limit

def endBy (call : SetupCall) (outcome : CallOutcome) (branches : List Char × List Char) : Effects :=
  let hangup := hangupBothLegs cfg call outcome branches
  ⟨call, hangup.2, hangup.1, some outcome⟩

/-- One of the legs is on the connection that was closed. -/
def affectedBy (call : SetupCall) (peer : SocketAddr) : Bool :=
  call.callerSource = peer ∧ isWebSocket call.callerTransport ∨
    call.calleeDest = some peer ∧ isWebSocket call.calleeTransport

/-- The connection of a leg is gone: the other leg is told. -/
def onClosed (call : SetupCall) (peer : SocketAddr) (branch : List Char) : Effects :=
  let reason := (CallOutcome.wsClosed false).reasonHeader
  if affectedBy call peer then
    if call.callerSource = peer then
      let sent :=
        match hangupCallee cfg call branch reason, call.calleeDest with
        | some (kind, raw), some dest => [⟨⟨raw, dest, call.calleeTransport, call.calleeReplyTx⟩, kind⟩]
        | _, _ => []
      ⟨call, sent, [], some (.wsClosed false)⟩
    else ⟨call, [], (hangupCaller cfg call branch 480 reason).toList, some (.wsClosed true)⟩
  else unchanged call

/-- The relay of a call starts with its answer, so that only an answered call
with media can be without packets. -/
def relayRan (call : SetupCall) : Bool := call.answeredAt.isSome && call.mediaSessionId.isSome

def onEvent (call : SetupCall) : CallEvent → Effects
  | .response a r => handleResponse cfg a call r
  | .ack request draw =>
      let call := handleAck call
      let sbcIp := (cfg.identity.map Prod.fst).getD "203.0.113.1".toList
      let sent := call.calleeDest.toList.map fun dest =>
        ⟨⟨relayedAck call.toB2buaCall request dest sbcIp draw, dest, call.calleeTransport,
          call.calleeReplyTx⟩, .ack⟩
      ⟨call, sent, [], none⟩
  | .bye byCaller reason relayed branch => onBye cfg call byCaller reason relayed branch
  | .cancel request => onCancel cfg call request
  | .inviteTimeout look timeout => onInviteTimeout cfg look timeout call
  | .setupTimeout now limit branches =>
      if setupTimedOut call now limit then endBy cfg call .setupTimeout branches else unchanged call
  | .rtpTimeout branches => if relayRan call then endBy cfg call .rtpTimeout branches else unchanged call
  | .hangup trigger branches => endBy cfg call trigger.outcome branches
  | .closed peer branch => onClosed cfg call peer branch
  | .refresh now branch =>
      let due := refreshCall cfg.lower cfg.upper now branch cfg.sbcIp cfg.sbcPort call.toB2buaCall
      ⟨call.mapCall fun _ => due.2,
        due.1.toList.map fun out => ⟨out, .reinvite⟩, [], none⟩

end

end NixiSbc.CallHandlers
