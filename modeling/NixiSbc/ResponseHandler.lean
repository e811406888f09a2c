import NixiSbc.Teardown

namespace NixiSbc.ResponseHandler

open Stun NetAddr TextScan TextFields TextWords RawSip SipBuilder CallSetup InviteTexts InviteRetries Teardown
open B2bua (B2buaCall InviteAttempt setSessionTimer dialogInfoTowardCallee classifyInviteResponse
  completeSessionRefresh failSessionRefresh refreshDuplicateAck buildRelayByeTowardCaller transportToken)

/-- A response as the SIP library reads it: its parts, and what it returns for
the single headers and the tag in the To. -/
structure Response where
  status : UInt16
  reason : List Char
  headers : List (List Char)
  body : List Char
  callId : Option (List Char)
  fromHeader : Option (List Char)
  toHeader : Option (List Char)
  contactHeader : Option (List Char)
  toTag : Option (List Char)
  deriving DecidableEq

def Response.text (r : Response) : List Char :=
  "SIP/2.0 ".toList ++ showNat r.status.toNat ++ ' ' :: r.reason ++ crlf ++
    r.headers.flatMap (· ++ crlf) ++ crlf ++ r.body

def statusCodeOf (raw : List Char) : Option UInt16 :=
  (words raw)[1]?.bind fun w => (parseUnsigned 16 w).map fun n => n.toUInt16

/-- The number and the method of the CSeq. -/
def responseCseq (U : Lowering) (r : Response) : Option (UInt32 × List Char) := do
  let raw ← r.headers.find? fun h => "cseq:".toList <+: toLowercase U h
  let (_, value) ← splitOnce ':' raw
  let num ← (words (trim value))[0]?.bind parseU32
  let method ← (words (trim value))[1]?
  return (num, method)

def extractContactUri (value : List Char) : List Char :=
  let start := value.findIdx (· = '<')
  let stop := value.findIdx (· = '>')
  if start < stop ∧ stop < value.length then (value.take stop).drop (start + 1)
  else trim (value.takeWhile (· ≠ ','))

/-- What a response meets besides the call: where it is from, the scenes of the
sends that it may bring about, branches for the requests that answer it, whether
the media relay fails when it is to start, and the delay after a glare. -/
structure Arrival where
  source : SocketAddr
  look : Nat → Scene
  branches : List Char × List Char
  relayFails : Bool
  delayMs : Nat

/-- What a handler does: the call as it leaves it, what it sends to either side,
and the outcome when it ends the call. -/
structure Effects where
  after : SetupCall
  sent : List Sent
  toCaller : List ToCaller
  ended : Option CallOutcome
  deriving DecidableEq

def unchanged (call : SetupCall) : Effects := ⟨call, [], [], none⟩

/-- The call that stays in the map. -/
def Effects.left (fx : Effects) : Option SetupCall := if fx.ended = none then some fx.after else none

section

variable (cfg : Config)

/-- The scene at the present number of candidates. -/
def Arrival.scene (a : Arrival) (call : SetupCall) : Scene := a.look (candidatesLeft call.toB2buaCall)

/-- The timer as a 2xx settles it: the interval of the answer, else the one that
was offered, else the configured one, and never below the minimum. -/
def armSessionTimer (call : SetupCall) (now : Nat) (response : List Char) : SetupCall :=
  match cfg.sessionTimer, call.trunkId with
  | some (configured, cfgMinSe), some _ =>
      let offered := call.inviteAttempts.getLast?.map (·.raw)
      let minSe := max ((offered.bind (parseMinSe cfg.lower)).getD cfgMinSe) cfgMinSe
      let negotiated := max ((parseSessionExpires cfg.lower response <|>
        offered.bind (parseSessionExpires cfg.lower)).getD configured) minSe
      call.mapCall fun c => setSessionTimer c now negotiated minSe
  | _, _ => call

/-- What a 2xx changes in the call. -/
def answered (call : SetupCall) (now : Nat) (r : Response) : SetupCall :=
  let call := handle200Ok call now (r.toTag.getD [])
  let call :=
    match r.fromHeader, r.toHeader with
    | some fromRaw, some toRaw =>
        setEstablishedDialog call fromRaw toRaw (r.contactHeader.map extractContactUri)
    | _, _ => call
  armSessionTimer cfg call now r.text

def ackForAnsweredCallee (call : SetupCall) (branch : List Char) : List Sent :=
  match dialogInfoTowardCallee call.toB2buaCall cfg.sbcIp cfg.sbcPort, call.calleeDest with
  | some d, some dest =>
      [⟨⟨buildAckFor2xx cfg.upper branch d d.cseq, dest, call.calleeTransport, call.calleeReplyTx⟩, .ack⟩]
  | _, _ => []

/-- The 2xx goes to the caller; without a media relay both dialogs end at once. -/
def onAnswer (a : Arrival) (call : SetupCall) (r : Response) : Effects :=
  let call := answered cfg call (a.scene call).now r
  if call.mediaSessionId.isSome && a.relayFails then
    let hangup := hangupBothLegs cfg call .mediaUnavailable a.branches
    ⟨call, ackForAnsweredCallee cfg call a.branches.1 ++ hangup.2, .relay r.status :: hangup.1,
      some .mediaUnavailable⟩
  else ⟨call, [], [.relay r.status], none⟩

/-- The code that is recorded is read from the text that is relayed. -/
def relayErrorAndTerminate (call : SetupCall) (sent : List Sent) (status : UInt16) (raw : List Char) :
    Effects :=
  ⟨call, sent, [.relay status], some (.rejected ((statusCodeOf raw).getD 500))⟩

/-- The INVITE was sent again, or the error goes to the caller. -/
def retriedOr (status : UInt16) (raw : List Char) (retried : Retried) : Effects :=
  if retried.1 then ⟨retried.2.1, retried.2.2, [], none⟩
  else relayErrorAndTerminate retried.2.1 retried.2.2 status raw

/-- The start line in the place of a challenge's, which stays hidden from the
caller; the recorded code is read from it. -/
def unavailableText : List Char := "SIP/2.0 503 Service Unavailable".toList

def isTrunkFailure (status : UInt16) : Bool := status = 408 ∨ (500 ≤ status ∧ status ≤ 699)

/-- The candidate that was taken goes back to the front. -/
def putBack (call : SetupCall) (next : Trunks.TrunkId) : SetupCall :=
  { call with failover := call.failover.map fun fo =>
      { fo with candidates := next :: fo.candidates, attempt := fo.attempt - min fo.attempt 1 } }

def onError (a : Arrival) (call : SetupCall) (r : Response) : Effects :=
  if isTrunkFailure r.status then
    match takeNextFailoverCandidate call (a.scene call).now with
    | some (next, call) => retriedOr r.status r.text (failoverToNextTrunk cfg a.look (putBack call next))
    | none => relayErrorAndTerminate call [] r.status r.text
  else relayErrorAndTerminate call [] r.status r.text

/-- The arms of `handle_response` by the status. -/
def onStatus (a : Arrival) (call : SetupCall) (r : Response) : Effects :=
  if 100 ≤ r.status ∧ r.status ≤ 199 then
    ⟨onProvisional call (a.scene call).now r.status, [], [.relay r.status], none⟩
  else if 200 ≤ r.status ∧ r.status ≤ 299 then onAnswer cfg a call r
  else if r.status = 407 then
    retriedOr 503 unavailableText (handle407AuthRetry cfg (a.scene call) call r.text a.source)
  else if r.status = 422 then
    retriedOr r.status r.text (handle422SessionIntervalRetry cfg (a.scene call) call r.text a.source)
  else onError cfg a call r

/-- The ACK of an error final, to where the live attempt went. -/
def ackCalleeFinal (call : SetupCall) (responseTo : List Char) : List Sent :=
  match call.inviteAttempts.getLast? with
  | none => []
  | some attempt =>
      (buildAckForNon2xx cfg.lower attempt.raw responseTo).toList.map fun ack =>
        ⟨⟨ack, attempt.dest, attempt.transport, call.calleeReplyTx⟩, .ack⟩

/-- A response of the live attempt. -/
def onCurrent (a : Arrival) (call : SetupCall) (r : Response) : Effects :=
  let call := markCalleeResponded call
  let acks := if 300 ≤ r.status then ackCalleeFinal cfg call (r.toHeader.getD []) else []
  let effects := onStatus cfg a call r
  { effects with sent := acks ++ effects.sent }

/-- The ACK and the BYE for an answer that nobody waits for, both to where the
attempt went. -/
def ackAndByeAnsweredDialog (attempt : InviteAttempt) (r : Response) (cseq : UInt32)
    (tx : Option Nat) (reason : List Char) (branches : List Char × List Char) : List Sent :=
  let d : DialogInfo := {
    callId := r.callId.getD []
    fromRaw := r.fromHeader.getD []
    toRaw := r.toHeader.getD []
    requestUri := (r.contactHeader.map extractContactUri).getD ("sip:".toList ++ showAddr attempt.dest)
    cseq := cseq
    localIp := cfg.sbcIp
    localPort := cfg.sbcPort
    transport := transportToken attempt.transport }
  [⟨⟨buildAckFor2xx cfg.upper branches.1 d cseq, attempt.dest, attempt.transport, tx⟩, .ack⟩,
    ⟨⟨buildBye cfg.upper branches.2 { d with cseq := cseq + 1 } (some reason), attempt.dest,
      attempt.transport, tx⟩, .bye⟩]

def supersededReason : List Char := "Q.850;cause=31;text=\"Superseded INVITE answered\"".toList

/-- A response of a superseded attempt; the connection of the live one is only
used for the same peer. -/
def handleStaleInviteResponse (a : Arrival) (call : SetupCall) (r : Response) (cseq : UInt32) :
    Option InviteAttempt → List Sent
  | none => []
  | some attempt =>
      let tx :=
        match call.inviteAttempts.getLast? with
        | some live => if live.dest = attempt.dest then call.calleeReplyTx else none
        | none => none
      if 100 ≤ r.status ∧ r.status ≤ 199 then []
      else if 200 ≤ r.status ∧ r.status ≤ 299 then
        ackAndByeAnsweredDialog cfg attempt r cseq tx supersededReason a.branches
      else
        (buildAckForNon2xx cfg.lower attempt.raw (r.toHeader.getD [])).toList.map fun ack =>
          ⟨⟨ack, attempt.dest, attempt.transport, tx⟩, .ack⟩

/-- The peer has lost the dialog: a BYE for the caller ends the call. -/
def teardownLostDialog (call : SetupCall) (status : UInt16) (branch : List Char) (sent : List Sent) :
    Effects :=
  let bye := buildRelayByeTowardCaller cfg.upper call.toB2buaCall branch cfg.sbcIp cfg.sbcPort
    (CallOutcome.dialogLost status).reasonHeader
  ⟨call.mapCall fun _ => bye.2, sent, bye.1.toList.map .bye, some (.dialogLost status)⟩

/-- The answer to a refresh of the SBC itself. -/
def handleRefreshResponse (a : Arrival) (call : SetupCall) (r : Response) (cseq : UInt32) : Effects :=
  if 100 ≤ r.status ∧ r.status ≤ 199 then unchanged call
  else if 200 ≤ r.status ∧ r.status ≤ 299 then
    let done := completeSessionRefresh cfg.upper call.toB2buaCall cseq a.branches.1 cfg.sbcIp cfg.sbcPort
    ⟨call.mapCall fun _ => done.2, done.1.toList.map fun out => ⟨out, .ack⟩, [], none⟩
  else
    let minSe := if r.status = 422 then parseMinSe cfg.lower r.text else none
    let failed := failSessionRefresh cfg.lower call.toB2buaCall (a.scene call).now a.delayMs cseq
      r.status minSe (r.toHeader.getD [])
    let call := call.mapCall fun _ => failed.2
    match failed.1 with
    | none => unchanged call
    | some failure =>
        let acks : List Sent := failure.ack.toList.map fun ack =>
          ⟨⟨ack, failure.dest, failure.transport, failure.replyTx⟩, .ack⟩
        if failure.dialogGone then teardownLostDialog cfg call r.status a.branches.2 acks
        else ⟨call, acks, [], none⟩

def isPendingRefresh (call : B2buaCall) (cseq : UInt32) : Bool :=
  call.sessionTimer.any fun st => st.pendingRefreshCseq = some cseq

/-- `handle_response` on the call that has its Call-ID. Without a CSeq nothing
is attributed and the status alone decides. -/
def handleResponse (a : Arrival) (call : SetupCall) (r : Response) : Effects :=
  match responseCseq cfg.lower r with
  | none => onStatus cfg a call r
  | some (cseq, method) =>
      if toAsciiLowercase method ≠ "invite".toList then unchanged call
      else if isPendingRefresh call.toB2buaCall cseq then handleRefreshResponse cfg a call r cseq
      else
        match refreshDuplicateAck cfg.lower cfg.upper call.toB2buaCall cseq r.status
            (r.toHeader.getD []) a.branches.1 cfg.sbcIp cfg.sbcPort with
        | some (ack, dest, transport, tx) =>
            ⟨call, ack.toList.map fun ack => ⟨⟨ack, dest, transport, tx⟩, .ack⟩, [], none⟩
        | none =>
            match classifyInviteResponse call.toB2buaCall (topViaBranch cfg.lower r.text) cseq with
            | .stale attempt => ⟨call, handleStaleInviteResponse cfg a call r cseq attempt, [], none⟩
            | .current => onCurrent cfg a call r

end

end NixiSbc.ResponseHandler
