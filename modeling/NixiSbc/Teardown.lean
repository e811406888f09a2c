import NixiSbc.InviteRetries

namespace NixiSbc.Teardown

open Stun TextFields SipBuilder CallSetup InviteTexts InviteRetries
open B2bua (Transport dialogInfoTowardCaller byeTowardCallee)

/-- Why a call ended. -/
inductive CallOutcome
  | normalClearing (byCaller : Bool)
  | cancelled
  | rejected (code : UInt16)
  | refused (code : UInt16)
  | maxDuration
  | shutdown
  | wsClosed (calleeDied : Bool)
  | adminKick
  | dialogLost (status : UInt16)
  | rtpTimeout
  | setupTimeout
  | mediaUnavailable
  deriving DecidableEq

namespace CallOutcome

/-- The final status that goes into the record of the call. -/
def sipCode (outcome : CallOutcome) (answered : Bool) : Option UInt16 :=
  if answered then some 200
  else
    match outcome with
    | .cancelled => some 487
    | .rejected code | .refused code => some code
    | .setupTimeout => some 408
    | .shutdown | .mediaUnavailable => some 503
    | .maxDuration | .adminKick => some 480
    | .wsClosed true => some 480
    | .normalClearing _ | .wsClosed false | .dialogLost _ | .rtpTimeout => none

def reasonHeader : CallOutcome → Option (List Char)
  | .maxDuration => some "Q.850;cause=16;text=\"Call duration exceeded\"".toList
  | .shutdown => some "Q.850;cause=16;text=\"Server shutdown\"".toList
  | .wsClosed _ => some "SIP;cause=200;text=\"ws-closed\"".toList
  | .adminKick => some "SIP;cause=200;text=\"Administrative teardown\"".toList
  | .rtpTimeout => some "Q.850;cause=16;text=\"RTP timeout\"".toList
  | .setupTimeout => some "SIP;cause=408;text=\"No answer\"".toList
  | .mediaUnavailable => some "Q.850;cause=47;text=\"No media resource available\"".toList
  | .dialogLost status =>
      some ("SIP;cause=".toList ++ showNat status.toNat ++ ";text=\"Dialog lost\"".toList)
  | .normalClearing _ | .cancelled | .rejected _ | .refused _ => none

/-- The final for a caller whose INVITE is still unanswered. -/
def pendingCallerCode : CallOutcome → UInt16
  | .setupTimeout => 408
  | .shutdown | .mediaUnavailable => 503
  | _ => 480

end CallOutcome

/-- What goes to the caller: a response of the callee, a response of the SBC
itself, or a BYE. -/
inductive ToCaller
  | relay (status : UInt16)
  | response (status : UInt16) (raw : List Char)
  | bye (raw : List Char)
  deriving DecidableEq

/-- The status of a final response. -/
def ToCaller.final : ToCaller → Option UInt16
  | .relay status | .response status _ => if status < 200 then none else some status
  | .bye _ => none

section

variable (cfg : Config)

/-- A final for the caller's INVITE, out of what was kept of it. -/
def finalTowardCaller (call : SetupCall) (code : UInt16) (reason : Option (List Char)) :
    Option (List Char) :=
  if call.callerOriginalVias = [] then none
  else do
    let fromRaw ← call.inbound.fromRaw
    let toRaw ← call.callerToRaw
    let cseq ← call.callerInviteCseq
    return "SIP/2.0 ".toList ++ showNat code.toNat ++ ' ' :: cfg.reasonPhrase code ++ crlf ++
      call.callerOriginalVias.flatMap (· ++ crlf) ++
      headerLine "From".toList fromRaw ++
      headerLine "To".toList (toRaw ++ ";tag=sbc-".toList ++ call.uuid.take 8) ++
      headerLine "Call-ID".toList call.inbound.callId ++
      headerLine "CSeq".toList (showNat cseq.toNat ++ " INVITE".toList) ++
      (reason.elim [] (headerLine "Reason".toList)) ++ "Content-Length: 0\r\n\r\n".toList

/-- A BYE for a caller with a dialog, else a final for its INVITE. -/
def hangupCaller (call : SetupCall) (branch : List Char) (code : UInt16) (reason : Option (List Char)) :
    Option ToCaller :=
  match dialogInfoTowardCaller call.toB2buaCall cfg.sbcIp cfg.sbcPort with
  | some d => some (.bye (buildBye cfg.upper branch d reason))
  | none => (finalTowardCaller cfg call code reason).map (.response code)

/-- A BYE for a callee with a dialog, else the CANCEL of the live attempt. -/
def hangupCallee (call : SetupCall) (branch : List Char) (reason : Option (List Char)) :
    Option (Kind × List Char) :=
  match byeTowardCallee cfg.lower cfg.upper call.toB2buaCall branch cfg.sbcIp cfg.sbcPort reason with
  | some bye => some (.bye, bye)
  | none =>
      call.inviteAttempts.getLast?.bind fun a => (buildCancel cfg.lower a.raw).map fun m => (.cancel, m)

def calleeTarget (call : SetupCall) : Option (SocketAddr × Transport) :=
  (call.inviteAttempts.getLast?.map fun a => (a.dest, a.transport)) <|>
    call.calleeDest.map fun d => (d, call.calleeTransport)

/-- The wire side of a teardown that the SBC begins; the two branches are drawn
for it. -/
def hangupBothLegs (call : SetupCall) (outcome : CallOutcome) (branches : List Char × List Char) :
    List ToCaller × List Sent :=
  ((hangupCaller cfg call branches.1 outcome.pendingCallerCode outcome.reasonHeader).toList,
    match hangupCallee cfg call branches.2 outcome.reasonHeader, calleeTarget call with
    | some (kind, raw), some (dest, transport) => [⟨⟨raw, dest, transport, call.calleeReplyTx⟩, kind⟩]
    | _, _ => [])

end

end NixiSbc.Teardown
