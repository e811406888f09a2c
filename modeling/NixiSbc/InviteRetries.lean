import NixiSbc.CallSetup
import NixiSbc.Digest
import NixiSbc.InviteTexts

namespace NixiSbc.InviteRetries

open Stun NetAddr TextScan TextFields TextWords RawSip KeyedTable Trunks CallSetup InviteTexts
open B2bua (B2buaCall InviteAttempt Transport Outgoing pushInviteAttempt)
open Digest (Md5 DigestChallenge generateDigestResponse)

/-- A trunk with what the calls over it need. -/
structure OutboundTrunk extends TrunkConfig where
  transport : Transport
  maxConcurrentCalls : UInt32
  authRequired : Bool
  username : Option (List Char)
  password : Option (List Char)
  deriving DecidableEq

/-- The manager files every trunk under its own id. -/
structure TrunkTable where
  getTrunk : TrunkId → Option OutboundTrunk
  keyed : ∀ {id t}, getTrunk id = some t → t.id = id

/-- What is fixed while the process runs. The parser of an address is that of
the standard library, the phrases are those of the SIP library. -/
structure Config where
  lower : Lowering
  upper : Uppering
  md5 : Md5
  parseAddr : List Char → Option SocketAddr
  reasonPhrase : UInt16 → List Char
  sessionTimer : Option (UInt32 × UInt32)
  identity : Option (List Char × UInt16)

def Config.sbcIp (cfg : Config) : List Char := (cfg.identity.map Prod.fst).getD "127.0.0.1".toList

def Config.sbcPort (cfg : Config) : UInt16 := (cfg.identity.map Prod.snd).getD 5060

/-- What a handler meets when it comes to send: the clock, the trunks and their
counters, its random numbers, and whether the network takes the message. -/
structure Scene where
  now : Nat
  trunks : TrunkTable
  getState : TrunkId → Option TrunkState
  draw : UInt64
  cnonce : UInt32
  taken : Bool

/-- Why an INVITE is sent. -/
inductive Origin
  | first
  | failover
  | auth
  | interval
  deriving DecidableEq

/-- What is sent toward the callee; of an INVITE that is to set the call up also
to which trunk, and whether it went out. -/
inductive Kind
  | invite (origin : Origin) (trunk : Option TrunkId) (taken : Bool)
  | reinvite
  | cancel
  | ack
  | bye
  deriving DecidableEq

structure Sent extends Outgoing where
  kind : Kind
  deriving DecidableEq

def unavailable (s : TrunkState) (now : Nat) : Bool :=
  s.disabledUntil.any (now < ·) || s.parkedUntil.any (now < ·)

def canAcceptCall (s : TrunkState) (now : Nat) (t : OutboundTrunk) : Bool :=
  !unavailable s now && s.activeCalls < t.maxConcurrentCalls

section

variable (cfg : Config)

def destination (t : TrunkConfig) : Option SocketAddr :=
  t.resolvedAddr <|> cfg.parseAddr (t.host ++ ':' :: showNat t.port.toNat)

/-- The candidate, when it still exists, has a destination and can take a call
now. -/
def selectable (scene : Scene) (id : TrunkId) : Option (OutboundTrunk × SocketAddr) := do
  let trunk ← scene.trunks.getTrunk id
  let dest ← destination cfg trunk.toTrunkConfig
  let state ← scene.getState id
  if trunk.enabled && canAcceptCall state scene.now trunk then some (trunk, dest) else none

/-- The CANCEL of the previous attempt, to where that went. -/
def cancelPrevious (call : SetupCall) (stored : List Char) : List Sent :=
  match buildCancel cfg.lower stored, call.calleeDest with
  | some cancel, some dest => [⟨⟨cancel, dest, call.calleeTransport, call.calleeReplyTx⟩, .cancel⟩]
  | _, _ => []

def pushAttempt (call : SetupCall) (now : Nat) (raw : List Char) (dest : SocketAddr)
    (transport : Transport) (trunkId : Option TrunkId) : SetupCall :=
  call.mapCall fun c => pushInviteAttempt cfg.lower c now raw dest transport trunkId

/-- The call on its next trunk, which gets its own budgets. -/
def switchTrunk (call : SetupCall) (now : Nat) (raw : List Char) (trunk : OutboundTrunk)
    (dest : SocketAddr) : SetupCall :=
  let call := pushAttempt cfg call now raw dest trunk.transport (some trunk.id)
  { call with
    authRetryCount := 0
    calleeReplyTx := none
    calleeResponded := false
    sessionTimerRetryCount := 0
    trunkCounted := some trunk.name
    outbound := call.outbound.map fun leg => { leg with remoteAddr := dest } }

def candidatesLeft (call : B2buaCall) : Nat := (call.failover.elim [] (·.candidates)).length

/-- Whether the call went to another trunk, the call, and what was sent. -/
abbrev Retried := Bool × SetupCall × List Sent

/-- `failover_to_next_trunk` with a bound on its recursion; none when that is
not enough. What it meets is given for each number of candidates left. -/
def failoverWithin (look : Nat → Scene) : Nat → SetupCall → Option Retried
  | 0, _ => none
  | n + 1, call =>
      let scene := look (candidatesLeft call.toB2buaCall)
      match takeNextFailoverCandidate call scene.now with
      | none => some (false, call, [])
      | some (nextId, call) =>
          match selectable cfg scene nextId with
          | none => failoverWithin look n call
          | some (trunk, dest) =>
              match call.originalOutboundInvite.filter (· ≠ []) with
              | none => some (false, call, [])
              | some stored =>
                  let cancel := cancelPrevious cfg call stored
                  match retargetInviteForTrunk cfg.lower (newBranch scene.draw) stored
                      trunk.toTrunkConfig with
                  | none => some (false, call, cancel)
                  | some invite =>
                      let sent : Sent := ⟨⟨invite, dest, trunk.transport, none⟩,
                        .invite .failover (some trunk.id) scene.taken⟩
                      if scene.taken then
                        some (true, switchTrunk cfg call scene.now invite trunk dest, cancel ++ [sent])
                      else
                        (failoverWithin look n call).map fun r => (r.1, r.2.1, cancel ++ sent :: r.2.2)

/-- Every call of the recursion takes a candidate, so one more than there are is
enough. -/
def failoverToNextTrunk (look : Nat → Scene) (call : SetupCall) : Retried :=
  (failoverWithin cfg look (candidatesLeft call.toB2buaCall + 1) call).getD (false, call, [])

def isUnspecified : IpAddr → Bool
  | .v4 octets => octets.all (· = 0)
  | .v6 octets => octets.all (· = 0)

/-- The attempt that a 422 rejects, and the INVITE to send in its place. -/
def intervalOffer (scene : Scene) (call : SetupCall) (response : List Char) :
    Option (InviteAttempt × List Char) := do
  let configured ← cfg.sessionTimer
  let attempt ← call.inviteAttempts.getLast?
  if attempt.trunkId = none ∨ call.sessionTimerRetryCount ≥ 1 then none
  else
    let minSe422 ← parseMinSe cfg.lower response
    let (expires, minSe) ← sessionIntervalRetryValues (parseSessionExpires cfg.lower attempt.raw)
      minSe422 configured
    return (attempt, buildSessionIntervalRetry cfg.lower (newBranch scene.draw) attempt.raw expires minSe)

def handle422SessionIntervalRetry (scene : Scene) (call : SetupCall) (response : List Char)
    (source : SocketAddr) : Retried :=
  match intervalOffer cfg scene call response with
  | none => (false, call, [])
  | some (attempt, invite) =>
      let dest := if isUnspecified (ip attempt.dest) then source else attempt.dest
      let sent : Sent := ⟨⟨invite, dest, attempt.transport, call.calleeReplyTx⟩,
        .invite .interval attempt.trunkId scene.taken⟩
      if scene.taken then
        let call := { call with
          sessionTimerRetryCount := call.sessionTimerRetryCount + 1
          authRetryCount := 0 }
        (true, pushAttempt cfg call scene.now invite dest attempt.transport attempt.trunkId, [sent])
      else (false, call, [sent])

/-- The value of the challenge in a response. -/
def proxyAuthenticate (response : List Char) : Option (List Char) :=
  ((lines response).find? fun l => "proxy-authenticate:".toList <+: toLowercase cfg.lower l).map
    fun l => trim (((splitOnce ':' l).map Prod.snd).getD (l.drop 1))

def extractRequestUriFromRaw (raw : List Char) : Option (List Char) :=
  (lines raw).head?.bind fun l => (words l)[1]?

/-- The trunk that a 407 is for, its credentials for the challenge, and the
INVITE that was challenged. -/
def authorize (scene : Scene) (call : SetupCall) (response : List Char) :
    Option (OutboundTrunk × List Char × List Char) := do
  let original ← call.originalOutboundInvite
  let trunkId ← call.trunkId
  if call.authRetryCount ≥ 1 ∨ original = [] then none
  else
    let trunk ← scene.trunks.getTrunk trunkId
    if trunk.authRequired = false then none
    else
      let username ← trunk.username
      let password ← trunk.password
      let value ← proxyAuthenticate cfg response
      let challenge ← (DigestChallenge.fromHeader value).toOption
      let uri := (extractRequestUriFromRaw original).getD "sip:unknown@unknown".toList
      return (trunk, generateDigestResponse cfg.md5 username password challenge "INVITE".toList uri
        scene.cnonce, original)

def handle407AuthRetry (scene : Scene) (call : SetupCall) (response : List Char)
    (source : SocketAddr) : Retried :=
  match authorize cfg scene call response with
  | none => (false, call, [])
  | some (trunk, value, original) =>
      let invite := injectProxyAuthIntoInvite cfg.lower (newBranch scene.draw) original value
      let dest := (destination cfg trunk.toTrunkConfig).getD source
      let sent : Sent := ⟨⟨invite, dest, trunk.transport, call.calleeReplyTx⟩,
        .invite .auth call.trunkId scene.taken⟩
      if scene.taken then
        let call := { call with authRetryCount := call.authRetryCount + 1 }
        (true, pushAttempt cfg call scene.now invite dest trunk.transport call.trunkId, [sent])
      else (false, call, [sent])

end

end NixiSbc.InviteRetries
