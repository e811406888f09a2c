import NixiSbc.NetAddr
import NixiSbc.SipBuilder
import NixiSbc.Trunks

namespace NixiSbc.B2bua

open Stun NetAddr TextScan TextFields RawSip SipBuilder Trunks

inductive Transport
  | udp
  | tcp
  | tls
  | tlsSctp
  | sctp
  | ws
  | wss
  deriving DecidableEq

def transportToken : Transport → List Char
  | .udp => "UDP".toList
  | .tcp => "TCP".toList
  | .tls => "TLS".toList
  | .ws => "WS".toList
  | .wss => "WSS".toList
  | _ => "UDP".toList

inductive CallState
  | initiated
  | proceeding
  | ringing
  | connected
  | terminating
  | terminated
  deriving DecidableEq

structure CallLeg where
  callId : List Char
  localTag : List Char
  remoteTag : Option (List Char)
  remoteAddr : SocketAddr
  cseq : UInt32
  established : Bool
  fromRaw : Option (List Char)
  toRaw : Option (List Char)
  remoteTarget : Option (List Char)
  deriving DecidableEq

def CallLeg.new (callId localTag : List Char) (remoteAddr : SocketAddr) : CallLeg :=
  ⟨callId, localTag, none, remoteAddr, 1, false, none, none, none⟩

/-- Times are in milliseconds of the monotonic clock. -/
structure FailoverState where
  candidates : List TrunkId
  attempt : UInt32
  inviteSentAt : Nat
  provisionalReceived : Bool
  deriving DecidableEq

structure SessionTimerState where
  intervalSecs : UInt32
  minSe : UInt32
  nextRefreshAt : Nat
  pendingRefreshCseq : Option UInt32
  pendingRefreshRaw : Option (List Char)
  lastRefresh : Option (UInt32 × List Char)
  refreshFailures : UInt32
  deriving DecidableEq

def maxRefreshFailures : UInt32 := 3

/-- One INVITE transaction toward the callee. -/
structure InviteAttempt where
  raw : List Char
  branch : Option (List Char)
  cseq : UInt32
  dest : SocketAddr
  transport : Transport
  trunkId : Option TrunkId
  deriving DecidableEq

def maxInviteAttempts : Nat := 8

inductive InviteResponseClass
  | current
  | stale (attempt : Option InviteAttempt)
  deriving DecidableEq

/-- A call of two legs. The reply channel toward the callee stands for its
connection, by a number. -/
structure B2buaCall where
  uuid : List Char
  inbound : CallLeg
  outbound : Option CallLeg
  state : CallState
  sentCseqTowardCaller : UInt32
  callerSource : SocketAddr
  callerTransport : Transport
  calleeReplyTx : Option Nat
  calleeDest : Option SocketAddr
  calleeTransport : Transport
  calleeRequestUri : Option (List Char)
  inviteAttempts : List InviteAttempt
  originalOutboundInvite : Option (List Char)
  trunkId : Option TrunkId
  trunkCounted : Option (List Char)
  failover : Option FailoverState
  sessionTimer : Option SessionTimerState
  deriving DecidableEq

/-- The uuid is a random one. -/
def B2buaCall.new (uuid inboundCallId inboundTag : List Char) (inboundAddr : SocketAddr)
    (callerTransport : Transport) : B2buaCall where
  uuid := uuid
  inbound := .new inboundCallId inboundTag inboundAddr
  outbound := none
  state := .initiated
  sentCseqTowardCaller := 0
  callerSource := inboundAddr
  callerTransport := callerTransport
  calleeReplyTx := none
  calleeDest := none
  calleeTransport := .udp
  calleeRequestUri := none
  inviteAttempts := []
  originalOutboundInvite := none
  trunkId := none
  trunkCounted := none
  failover := none
  sessionTimer := none

/-- The number in the first line that begins with `CSeq:`. -/
def parseCseqNumber (U : Lowering) (raw : List Char) : Option UInt32 :=
  ((splitCrlf raw).find? fun l => "cseq:".toList <+: toLowercase U l).bind fun l =>
    (firstWord (l.drop "cseq:".length)).bind parseU32

def extractBody (raw : List Char) : Option (List Char) :=
  match findSub crlfCrlf raw with
  | none => none
  | some pos => if raw.drop (pos + 4) = [] then none else some (raw.drop (pos + 4))

def dialogInfoTowardCaller (call : B2buaCall) (localIp : List Char) (localPort : UInt16) :
    Option DialogInfo := do
  let fromRaw ← call.inbound.toRaw
  let toRaw ← call.inbound.fromRaw
  return {
    callId := call.inbound.callId
    fromRaw := fromRaw
    toRaw := toRaw
    requestUri := call.inbound.remoteTarget.getD ("sip:".toList ++ showAddr call.callerSource)
    cseq := call.sentCseqTowardCaller + 1
    localIp := localIp
    localPort := localPort
    transport := transportToken call.callerTransport }

def dialogInfoTowardCallee (call : B2buaCall) (localIp : List Char) (localPort : UInt16) :
    Option DialogInfo := do
  let out ← call.outbound
  let fromRaw ← out.fromRaw
  let toRaw ← out.toRaw
  let requestUri ← out.remoteTarget <|> call.calleeRequestUri <|>
    call.calleeDest.map fun d => "sip:".toList ++ showAddr d
  return {
    callId := out.callId
    fromRaw := fromRaw
    toRaw := toRaw
    requestUri := requestUri
    cseq := out.cseq
    localIp := localIp
    localPort := localPort
    transport := transportToken call.calleeTransport }

/-- The number of the live INVITE attempt, else of the stored INVITE, else zero. -/
def liveInviteCseq (U : Lowering) (call : B2buaCall) : UInt32 :=
  match call.inviteAttempts.getLast? with
  | some a => a.cseq
  | none => (call.originalOutboundInvite.bind (parseCseqNumber U)).getD 0

def legCseq (call : B2buaCall) : UInt32 := (call.outbound.map CallLeg.cseq).getD 0

/-- The sum wraps in a release build. -/
def nextOutboundCseq (U : Lowering) (call : B2buaCall) : UInt32 :=
  max (liveInviteCseq U call) (legCseq call) + 1

def byeTowardCallee (U : Lowering) (V : Uppering) (call : B2buaCall) (branch localIp : List Char)
    (localPort : UInt16) (reason : Option (List Char)) : Option (List Char) :=
  (dialogInfoTowardCallee call localIp localPort).map fun d =>
    buildBye V branch { d with cseq := nextOutboundCseq U call } reason

def setLegCseq (call : B2buaCall) (cseq : UInt32) : B2buaCall :=
  { call with outbound := call.outbound.map fun leg => { leg with cseq := cseq } }

def noteRelayedCseq (call : B2buaCall) (towardCallee : Bool) (cseq : UInt32) : B2buaCall :=
  if towardCallee then
    { call with outbound := call.outbound.map fun leg => { leg with cseq := max leg.cseq cseq } }
  else { call with sentCseqTowardCaller := max call.sentCseqTowardCaller cseq }

def buildRelayByeTowardCallee (U : Lowering) (V : Uppering) (call : B2buaCall)
    (branch localIp : List Char) (localPort : UInt16) (reason : Option (List Char)) :
    Option (List Char) × B2buaCall :=
  match dialogInfoTowardCallee call localIp localPort with
  | none => (none, call)
  | some d =>
      let cseq := nextOutboundCseq U call
      (some (buildBye V branch { d with cseq := cseq } reason), setLegCseq call cseq)

def buildRelayByeTowardCaller (V : Uppering) (call : B2buaCall) (branch localIp : List Char)
    (localPort : UInt16) (reason : Option (List Char)) : Option (List Char) × B2buaCall :=
  match dialogInfoTowardCaller call localIp localPort with
  | none => (none, call)
  | some d => (some (buildBye V branch d reason), { call with sentCseqTowardCaller := d.cseq })

def attemptOf (U : Lowering) (raw : List Char) (dest : SocketAddr) (transport : Transport)
    (trunkId : Option TrunkId) : InviteAttempt :=
  ⟨raw, topViaBranch U raw, (parseCseqNumber U raw).getD 1, dest, transport, trunkId⟩

/-- The oldest attempt goes when one too many is remembered. -/
def remember (attempts : List InviteAttempt) (a : InviteAttempt) : List InviteAttempt :=
  if (attempts ++ [a]).length > maxInviteAttempts then (attempts ++ [a]).drop 1
  else attempts ++ [a]

def pushInviteAttempt (U : Lowering) (call : B2buaCall) (now : Nat) (raw : List Char)
    (dest : SocketAddr) (transport : Transport) (trunkId : Option TrunkId) : B2buaCall :=
  { call with
    originalOutboundInvite := some raw
    trunkId := trunkId <|> call.trunkId
    calleeDest := some dest
    calleeTransport := transport
    failover := call.failover.map fun fo => { fo with inviteSentAt := now }
    inviteAttempts := remember call.inviteAttempts (attemptOf U raw dest transport trunkId) }

/-- The branch decides; the number is the fallback for an unknown branch. -/
def classifyInviteResponse (call : B2buaCall) (responseBranch : Option (List Char))
    (responseCseq : UInt32) : InviteResponseClass :=
  match call.inviteAttempts.getLast? with
  | none => .current
  | some current =>
      let older := call.inviteAttempts.reverse.drop 1
      let sameBranch (a : InviteAttempt) : Bool := responseBranch ≠ none ∧ a.branch = responseBranch
      if sameBranch current then .current
      else
        match older.find? sameBranch with
        | some a => .stale (some a)
        | none =>
            if responseCseq > current.cseq then .stale none
            else if responseBranch ≠ none ∧ current.branch ≠ none ∧ responseCseq = current.cseq then
              .current
            else if responseCseq < current.cseq then
              .stale (older.find? fun a => a.cseq = responseCseq)
            else .current

/-- Half the interval, at least half a minute, in milliseconds. -/
def refreshPeriod (intervalSecs : UInt32) : Nat := max (intervalSecs.toNat / 2) 30 * 1000

def setSessionTimer (call : B2buaCall) (now : Nat) (intervalSecs minSe : UInt32) : B2buaCall :=
  { call with sessionTimer := some {
      intervalSecs := intervalSecs
      minSe := minSe
      nextRefreshAt := now + refreshPeriod intervalSecs
      pendingRefreshCseq := none
      pendingRefreshRaw := none
      lastRefresh := none
      refreshFailures := 0 } }

/-- A message for the callee with where it goes. -/
structure Outgoing where
  raw : List Char
  dest : SocketAddr
  transport : Transport
  replyTx : Option Nat
  deriving DecidableEq

def contactUri (localIp : List Char) (localPort : UInt16) : List Char :=
  "<sip:sbc@".toList ++ localIp ++ ':' :: showNat localPort.toNat ++ ">".toList

/-- The body of the refresh loop, for one call. -/
def refreshCall (U : Lowering) (V : Uppering) (now : Nat) (branch localIp : List Char)
    (localPort : UInt16) (call : B2buaCall) : Option Outgoing × B2buaCall :=
  match call.state, call.calleeDest, call.sessionTimer,
      dialogInfoTowardCallee call localIp localPort,
      call.originalOutboundInvite.bind extractBody with
  | .connected, some dest, some st, some d, some sdp =>
      if st.nextRefreshAt > now ∨ st.pendingRefreshCseq ≠ none then (none, call)
      else
        let cseq := nextOutboundCseq U call
        let reinvite := buildReinvite V branch { d with cseq := cseq } sdp
          (contactUri localIp localPort) (some (st.intervalSecs, "uac".toList)) (some st.minSe)
        (some ⟨reinvite, dest, call.calleeTransport, call.calleeReplyTx⟩,
          { setLegCseq call cseq with
            sessionTimer := some { st with
              pendingRefreshCseq := some cseq
              pendingRefreshRaw := some reinvite
              lastRefresh := some (cseq, reinvite)
              nextRefreshAt := now + refreshPeriod st.intervalSecs } })
  | _, _, _, _, _ => (none, call)

/-- The refreshes of all calls, by uuid; each request draws a branch. -/
def dueSessionRefreshes (U : Lowering) (V : Uppering) (calls : KeyedTable.Table (List Char) B2buaCall)
    (now : Nat) (branchFor : List Char → List Char) (localIp : List Char) (localPort : UInt16) :
    List (List Char × Outgoing) × KeyedTable.Table (List Char) B2buaCall :=
  (KeyedTable.collect
      (fun uuid call => (refreshCall U V now (branchFor uuid) localIp localPort call).1) calls,
    KeyedTable.sweep
      (fun uuid call => some (refreshCall U V now (branchFor uuid) localIp localPort call).2) calls)

/-- The pending refresh is consumed even when no ACK can be built. -/
def completeSessionRefresh (V : Uppering) (call : B2buaCall) (cseq : UInt32)
    (branch localIp : List Char) (localPort : UInt16) : Option Outgoing × B2buaCall :=
  match call.sessionTimer with
  | none => (none, call)
  | some st =>
      if st.pendingRefreshCseq ≠ some cseq then (none, call)
      else
        let call := { call with sessionTimer := some { st with
          pendingRefreshCseq := none
          pendingRefreshRaw := none
          refreshFailures := 0 } }
        let ack := do
          let d ← dialogInfoTowardCallee call localIp localPort
          let dest ← call.calleeDest
          return ⟨buildAckFor2xx V branch d cseq, dest, call.calleeTransport, call.calleeReplyTx⟩
        (ack, call)

structure RefreshFailure where
  ack : Option (List Char)
  dest : SocketAddr
  transport : Transport
  replyTx : Option Nat
  dialogGone : Bool
  deriving DecidableEq

/-- The timer after a refusal that counts: a 422 may raise the interval, which
is progress, and anything else is one more failure. -/
def noteFailure (st : SessionTimerState) (now : Nat) (status : UInt16) (minSe422 : Option UInt32) :
    SessionTimerState :=
  let progressed : Bool := status = 422 ∧ minSe422.any (st.intervalSecs < ·)
  let raised := if status = 422 then minSe422 else none
  let intervalSecs := raised.elim st.intervalSecs (max st.intervalSecs)
  let failures := if progressed then 0 else st.refreshFailures + 1
  { st with
    intervalSecs := intervalSecs
    minSe := raised.elim st.minSe (max st.minSe)
    refreshFailures := failures
    nextRefreshAt :=
      now + min (30 * 2 ^ (min failures 4).toNat) (max (intervalSecs.toNat / 2) 30) * 1000 }

/-- A refusal of the pending refresh. `delayMs` is the random delay after a
glare. -/
def failSessionRefresh (U : Lowering) (call : B2buaCall) (now delayMs : Nat) (cseq : UInt32)
    (status : UInt16) (minSe422 : Option UInt32) (responseTo : List Char) :
    Option RefreshFailure × B2buaCall :=
  match call.sessionTimer with
  | none => (none, call)
  | some st =>
      if st.pendingRefreshCseq ≠ some cseq then (none, call)
      else
        let ack := st.pendingRefreshRaw.bind fun raw => buildAckForNon2xx U raw responseTo
        let st := { st with pendingRefreshCseq := none, pendingRefreshRaw := none }
        let answer (dialogGone : Bool) : Option RefreshFailure := call.calleeDest.map fun dest =>
          ⟨ack, dest, call.calleeTransport, call.calleeReplyTx, dialogGone⟩
        if status = 491 then
          (answer false, { call with sessionTimer := some { st with nextRefreshAt := now + delayMs } })
        else if status = 405 ∨ status = 501 ∨ status = 420 then
          (answer false, { call with sessionTimer := none })
        else
          let st := noteFailure st now status minSe422
          (answer (status = 408 ∨ status = 481 ∨ st.refreshFailures ≥ maxRefreshFailures),
            { call with sessionTimer := some st })

/-- For a repeated answer to the last refresh: the ACK to send again, none for a
provisional one. -/
def refreshDuplicateAck (U : Lowering) (V : Uppering) (call : B2buaCall) (cseq : UInt32)
    (status : UInt16) (responseTo branch localIp : List Char) (localPort : UInt16) :
    Option (Option (List Char) × SocketAddr × Transport × Option Nat) := do
  let st ← call.sessionTimer
  let (lastCseq, raw) ← st.lastRefresh
  if lastCseq ≠ cseq then none
  else
    let ack :=
      if 100 ≤ status ∧ status ≤ 199 then none
      else if 200 ≤ status ∧ status ≤ 299 then
        (dialogInfoTowardCallee call localIp localPort).map fun d => buildAckFor2xx V branch d cseq
      else buildAckForNon2xx U raw responseTo
    let dest ← call.calleeDest
    return (ack, dest, call.calleeTransport, call.calleeReplyTx)

end NixiSbc.B2bua
