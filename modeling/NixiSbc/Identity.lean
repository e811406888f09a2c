import Mathlib
import NixiSbc.B2bua
import NixiSbc.Digest
import NixiSbc.Registrar
import NixiSbc.TextWords

namespace NixiSbc.Identity

open Stun NetAddr KeyedTable Eviction TextScan TextFields Digest Registrar B2bua

section Readers

def find (c : Char) (text : List Char) : Option Nat := text.idxOf? c

def rfind (c : Char) (text : List Char) : Option Nat :=
  (text.reverse.idxOf? c).map fun k => text.length - 1 - k

/-- The texts before and after the last separator. -/
def rsplitOnce (sep : Char) (text : List Char) : Option (List Char × List Char) :=
  (rfind sep text).map fun k => (text.take k, text.drop (k + 1))

/-- What stands between two positions. -/
def between (a b : Nat) (text : List Char) : List Char := (text.take b).drop (a + 1)

/-- Between the last angle brackets, or up to the first parameter. -/
def addrSpec (value : List Char) : List Char :=
  let s := trim value
  match rfind '<' s, rfind '>' s with
  | some a, some b => if a < b then trim (between a b s) else trim (s.takeWhile (· ≠ ';'))
  | _, _ => trim (s.takeWhile (· ≠ ';'))

def withoutScheme (uri : List Char) : List Char :=
  ((stripPrefix "sips:".toList uri).or (stripPrefix "sip:".toList uri)).getD uri

def uriUser (uri : List Char) : Option (List Char) :=
  match splitOnce '@' (withoutScheme (addrSpec uri)) with
  | none => none
  | some (user, _) =>
      let user := trim (user.takeWhile (· ≠ ';'))
      if user = [] then none else some user

def uriHost (uri : List Char) : Option (List Char) :=
  let s := withoutScheme (addrSpec uri)
  let hostPort := ((splitOnce '@' s).map (·.2)).getD s
  let hostPort := trim (hostPort.takeWhile fun c => c ≠ ';' ∧ c ≠ '>' ∧ c ≠ '?')
  let host : List Char :=
    match stripPrefix ['['] hostPort with
    | some rest => rest.takeWhile (· ≠ ']')
    | none => ((rsplitOnce ':' hostPort).map (·.1)).getD hostPort
  if host = [] then none else some (toAsciiLowercase host)

inductive AorRejection
  | user (name : List Char)
  | domain (host : List Char)
  deriving DecidableEq

/-- Without a served domain no host is refused. -/
def authorizeAor (authUser aor : List Char) (served : List (List Char)) : Except AorRejection Unit :=
  let user := (uriUser aor).getD []
  if user ≠ authUser then .error (.user user)
  else if served ≠ [] then
    let host := (uriHost aor).getD []
    if served.any fun d => toAsciiLowercase d = toAsciiLowercase host then .ok () else .error (.domain host)
  else .ok ()

def trimEndMatches (c : Char) (text : List Char) : List Char := (text.reverse.dropWhile (· = c)).reverse

def canonicalAor (raw : List Char) : List Char :=
  let s := trim raw
  let inner : List Char :=
    match find '<' s, rfind '>' s with
    | some a, some b => if a < b then trim (between a b s) else s
    | _, _ => s
  let inner := trimEndMatches '>' (trim (inner.takeWhile fun c => c ≠ ';' ∧ c ≠ '?'))
  let (scheme, rest) :=
    match splitOnce ':' inner with
    | some (scheme, rest) =>
        if toAsciiLowercase scheme = "sip".toList ∨ toAsciiLowercase scheme = "sips".toList then
          (toAsciiLowercase scheme ++ [':'], rest)
        else ([], inner)
    | none => ([], inner)
  let (user, host) :=
    match rsplitOnce '@' rest with
    | some (user, host) => (user ++ ['@'], host)
    | none => ([], rest)
  let host :=
    match rsplitOnce ':' host with
    | some (h, digits) => if h ≠ [] ∧ digits.all isDigit then h else host
    | none => host
  scheme ++ user ++ toAsciiLowercase host

/-- What the split has collected, and whether it is inside quotes or brackets. -/
structure Splitting where
  out : List (List Char)
  cur : List Char
  quoted : Bool
  depth : Int

def splitStep (s : Splitting) (c : Char) : Splitting :=
  if c = '"' then { s with quoted := !s.quoted, cur := s.cur ++ [c] }
  else if c = '<' ∧ s.quoted = false then { s with depth := s.depth + 1, cur := s.cur ++ [c] }
  else if c = '>' ∧ s.quoted = false then { s with depth := s.depth - 1, cur := s.cur ++ [c] }
  else if c = ',' ∧ s.quoted = false ∧ s.depth ≤ 0 then { s with out := s.out ++ [s.cur], cur := [] }
  else { s with cur := s.cur ++ [c] }

def splitContacts (value : List Char) : List (List Char) :=
  let s := value.foldl splitStep ⟨[], [], false, 0⟩
  ((s.out ++ [s.cur]).map trim).filter (· ≠ [])

/-- The addr-spec of a contact and its parameters. -/
def contactParts (item : List Char) : Except (List Char) (List Char × List (List Char)) :=
  match (find '<' item).bind fun a => (find '>' (item.drop a)).map fun off => (a, a + off) with
  | some (a, b) => .ok (trim (between a b item), (((item.drop (b + 1)).splitOn ';').drop 1).map trim)
  | none =>
      if '<' ∈ item ∨ '>' ∈ item then
        .error ("unbalanced angle brackets in Contact '".toList ++ item ++ ['\''])
      else .ok (trim (item.takeWhile (· ≠ ';')), ((item.splitOn ';').drop 1).map trim)

def contactParameter (binding : ContactBinding) (p : List Char) : Except (List Char) ContactBinding :=
  let (name, val) :=
    match splitOnce '=' p with
    | some (n, v) => (toAsciiLowercase (trim n), trimMatches '"' (trim v))
    | none => (toAsciiLowercase (trim p), [])
  if name = "expires".toList then
    match parseU32 val with
    | some n => .ok { binding with expires := some n }
    | none => .error ("bad expires '".toList ++ val ++ "' in Contact".toList)
  else if name = "+sip.instance".toList then .ok { binding with instanceId := some val }
  else if name = "reg-id".toList then .ok { binding with regId := parseU32 val }
  else .ok binding

def contactItem (item : List Char) : Except (List Char) ContactBinding := do
  let (uri, params) ← contactParts item
  if ¬("sip:".toList <+: uri ∨ "sips:".toList <+: uri) ∨ ('@' ∉ uri ∧ ':' ∉ uri) then
    .error ("not a SIP URI in Contact '".toList ++ item ++ ['\''])
  else params.foldlM contactParameter ⟨uri, none, none, none⟩

/-- The contacts of one header; the wildcard has none. -/
def parseContactHeader (value : List Char) : Except (List Char) (Option (List ContactBinding)) :=
  if trim value = ['*'] then .ok none
  else do
    let out ← (splitContacts value).mapM contactItem
    if out = [] then .error "empty Contact".toList else .ok (some out)

end Readers

/-- The headers with the names as the parser prints them. -/
structure Request where
  uri : List Char
  headers : List (List Char × List Char)

/-- The first header that the parser took for one of this name. -/
def Request.header (req : Request) (name : String) : Option (List Char) :=
  (req.headers.find? fun h => h.1 = name.toList).map (·.2)

/-- The first header of a name in any case. -/
def Request.headerValue (req : Request) (name : String) : Option (List Char) :=
  (req.headers.find? fun h => toAsciiLowercase h.1 = toAsciiLowercase name.toList).map fun h => trim h.2

structure IdentityPolicy where
  enforceRegisterAor : Bool
  servedDomains : List (List Char)
  rejectTrunkLocalFrom : Bool

/-- What a fingerprint is taken of. -/
inductive Print
  | register (authValue : List Char) (source : SocketAddr) (contact : List Char)
  | invite (authValue : List Char) (source : SocketAddr)
  deriving DecidableEq

/-- The configuration, and what the libraries answer: the order of the hash map,
case tables, the digest's hash, the hash of fingerprints, the number of a CSeq
header and the user of a From header. -/
structure Gate where
  order : Iteration RegKey Registration
  uppering : Uppering
  md5 : Md5
  hash : Print → UInt64
  cseqNumber : List Char → Option UInt32
  fromUser : List Char → Option (List Char)
  enableDigestAuth : Bool
  registerPolicy : RegisterPolicy
  identityPolicy : IdentityPolicy
  identity : Option (List Char × List Char)

structure Sbc where
  auth : Option DigestAuthenticator
  registrar : InMemoryRegistrar

/-- When the clock is read for a challenge, and the random bytes of its nonce. -/
structure Draw where
  created : Nat
  now : Nat
  bytes : Vector UInt8 16

variable (G : Gate)

def pushDomain (out : List (List Char)) (d : List Char) : List (List Char) :=
  let d := toAsciiLowercase (trim d)
  if d ≠ [] ∧ d ∉ out then out ++ [d] else out

def servedDomains (s : Sbc) : List (List Char) :=
  ((s.auth.map (·.realm)).toList ++ (G.identity.map fun id => [id.1, id.2]).getD [] ++
    ["127.0.0.1".toList, "localhost".toList] ++ G.identityPolicy.servedDomains).foldl pushDomain []

def challenge (a : DigestAuthenticator) (draw : Draw) (stale : Bool) : List Char × DigestAuthenticator :=
  generateChallengeWith a draw.created draw.now draw.bytes stale

inductive RegisterReply
  | unauthorized (challenge : List Char)
  | refused (failure : AuthFailure)
  | forbidden (why : AorRejection)
  | badContact (text : List Char)
  | processed (result : RegisterResult)
  | failed (text : List Char)
  deriving DecidableEq

/-- A stale nonce and a replay are challenged anew. -/
def rejectRegisterAuth (s : Sbc) (a : DigestAuthenticator) (draw : Draw) (failure : AuthFailure) : RegisterReply × Sbc :=
  match failure with
  | .staleNonce _ | .replay _ =>
      let r := challenge a draw true
      (.unauthorized r.1, { s with auth := some r.2 })
  | failure => (.refused failure, { s with auth := some a })

/-- The fingerprint of a REGISTER covers its first contact header. -/
def registerPrint (req : Request) (source : SocketAddr) (authValue : List Char) : Print :=
  .register authValue source ((req.header "Contact").getD [])

/-- The user of a REGISTER, unless it is answered here. -/
def authenticateRegister (s : Sbc) (now : Nat) (draw : Draw) (req : Request) (source : SocketAddr) :
    Except RegisterReply (Option (List Char)) × Sbc :=
  match (if G.enableDigestAuth then s.auth else none) with
  | none => (.ok none, s)
  | some a =>
      match req.header "Authorization" with
      | none =>
          let r := challenge a draw false
          (.error (.unauthorized r.1), { s with auth := some r.2 })
      | some authValue =>
          match verifyWith G.md5 a now authValue "REGISTER".toList (some (G.hash (registerPrint req source authValue))) with
          | (.ok user, a) => (.ok (some user), { s with auth := some a })
          | (.error failure, a) =>
              let r := rejectRegisterAuth s a draw failure
              (.error r.1, r.2)

/-- The user half is enforced under the policy, the host half only once the
operator has listed domains. -/
def enforced (why : AorRejection) : Bool :=
  match why with
  | .user _ => G.identityPolicy.enforceRegisterAor
  | .domain _ => G.identityPolicy.enforceRegisterAor ∧ G.identityPolicy.servedDomains ≠ []

/-- The refusal of an address of record that is not the user's own. -/
def refuseAor (s : Sbc) (user : Option (List Char)) (aor : List Char) : Option AorRejection :=
  match user with
  | none => none
  | some user =>
      match authorizeAor user aor (servedDomains G s) with
      | .ok () => none
      | .error why => if enforced G why then some why else none

def isContact (name : List Char) : Bool := toAsciiLowercase name = "contact".toList ∨ name = ['m']

/-- The values of all contact headers. -/
def Request.contacts (req : Request) : List (List Char) := (req.headers.filter fun h => isContact h.1).map (·.2)

/-- The contacts of all headers, and whether one is the wildcard. -/
def collectContacts (values : List (List Char)) : Except (List Char) (List ContactBinding × Bool) :=
  values.foldlM (fun found value => do
    match ← parseContactHeader (trim value) with
    | none => return (found.1, true)
    | some parsed => return (found.1 ++ parsed, found.2)) ([], false)

def transportName : Transport → List Char
  | .udp => "UDP".toList
  | .tcp => "TCP".toList
  | .tls => "TLS".toList
  | .tlsSctp => "TLSSCTP".toList
  | .sctp => "SCTP".toList
  | .ws => "WS".toList
  | .wss => "WSS".toList

/-- Connections keep the channel that a request came on. -/
def keptReplyTx (transport : Transport) (replyTx : Option Nat) : Option Nat :=
  match transport with
  | .ws | .wss | .tls | .tcp => replyTx
  | _ => none

def registerRequest (req : Request) (aor : List Char) (contacts : List ContactBinding) (wildcard : Bool)
    (callId : List Char) (source : SocketAddr) (transport : Transport) (replyTx : Option Nat) : RegisterRequest where
  aor
  contacts
  wildcard
  expiresHeader := (req.header "Expires").bind fun v => parseU32 (trim v)
  callId
  cseq := ((req.header "CSeq").bind G.cseqNumber).getD 1
  source
  transport := transportName transport
  userAgent := req.headerValue "User-Agent"
  replyTx := keptReplyTx transport replyTx

def handleRegister (s : Sbc) (now : Nat) (draw : Draw) (req : Request) (source : SocketAddr)
    (transport : Transport) (replyTx : Option Nat) : RegisterReply × Sbc :=
  match authenticateRegister G s now draw req source with
  | (.error reply, s) => (reply, s)
  | (.ok user, s) =>
      match req.header "To" with
      | none => (.failed "Missing To header".toList, s)
      | some aorRaw =>
          let aor := canonicalAor aorRaw
          match refuseAor G s user aor with
          | some why => (.forbidden why, s)
          | none =>
              match collectContacts req.contacts with
              | .error text => (.badContact text, s)
              | .ok (contacts, wildcard) =>
                  match req.header "Call-ID" with
                  | none => (.failed "Missing Call-ID".toList, s)
                  | some callId =>
                      let r := process G.order G.uppering G.registerPolicy s.registrar now
                        (registerRequest G req aor contacts wildcard callId source transport replyTx)
                      (.processed r.1, { s with registrar := r.2 })

inductive CallerIdentity
  | trunk
  | localhost
  | user (name : List Char)
  deriving DecidableEq

inductive IdentityVerdict
  | forbidden (strike : Bool) (why : List Char)
  | challenge (stale : Bool)
  | badRequest
  deriving DecidableEq

/-- The user parts of the unexpired bindings, those from the address and all. -/
def registeredUsers (s : Sbc) (now : Nat) (sourceIp : List Char) : List (List Char) × List (List Char) :=
  let live := ((G.order.order s.registrar.regs).map Sigma.snd).filter fun r => toSecs now < r.expiresAt
  ((live.filter fun r => r.receivedIp = sourceIp).filterMap fun r => uriUser r.aor,
    live.filterMap fun r => uriUser r.aor)

def isLocalUser (s : Sbc) (user : List Char) (registered : List (List Char)) : Bool :=
  user ∈ registered ∨ s.auth.any fun a => (a.users.lookup user).isSome

/-- A sibling of a trunk shares the text up to the last dot. -/
def sourceIsTrunkRelated (trunkIps : List (List Char)) (sourceIp : List Char) : Bool :=
  trunkIps.any fun tip => tip = sourceIp ∨
    ((rsplitOnce '.' tip).isSome ∧ (rsplitOnce '.' tip).map (·.1) = (rsplitOnce '.' sourceIp).map (·.1))

def showFailure : AuthFailure → List Char
  | .staleNonce user => "stale or unknown nonce (user ".toList ++ user ++ [')']
  | .replay user => "replayed authorization (user ".toList ++ user ++ [')']
  | .badCredentials user => "wrong password (user ".toList ++ user ++ [')']
  | .unknownUser user => "unknown user ".toList ++ user
  | .malformed => "malformed Digest header".toList

/-- The fingerprint of an INVITE covers its credentials and its source. -/
def invitePrint (source : SocketAddr) (authValue : List Char) : Print := .invite authValue source

/-- What the proof of an unregistered source comes to. -/
def verdictOf (user : List Char) : Except AuthFailure (List Char) → Except IdentityVerdict CallerIdentity
  | .ok proved =>
      if proved = user then .ok (.user proved)
      else .error (.forbidden false ('\'' :: proved ++ "' authenticated but presented From '".toList ++ user ++ ['\'']))
  | .error (.staleNonce _) | .error (.replay _) => .error (.challenge true)
  | .error .malformed => .error .badRequest
  | .error failure => .error (.forbidden true ("Digest failed: ".toList ++ showFailure failure))

/-- An unregistered source that claims a local user. -/
def proveCaller (s : Sbc) (now : Nat) (req : Request) (source : SocketAddr) (user : List Char) :
    Except IdentityVerdict CallerIdentity × Sbc :=
  match (if G.enableDigestAuth then s.auth else none) with
  | none => (.ok (.user user), s)
  | some a =>
      match req.headerValue "proxy-authorization" with
      | none => (.error (.challenge false), s)
      | some value =>
          let r := verifyWith G.md5 a now value "INVITE".toList (some (G.hash (invitePrint source value)))
          (verdictOf user r.1, { s with auth := some r.2 })

/-- A trunk that presents a local user is relayed as a trunk, or refused. -/
def classifyTrunk (s : Sbc) (req : Request) (sourceIp : List Char) (anywhere : List (List Char))
    (fromUser : Option (List Char)) : Except IdentityVerdict CallerIdentity :=
  match fromUser with
  | none => .ok .trunk
  | some user =>
      let servedHost := (uriHost ((req.header "From").getD [])).any fun h => h ∈ servedDomains G s
      if servedHost ∧ isLocalUser s user anywhere ∧ G.identityPolicy.rejectTrunkLocalFrom then
        .error (.forbidden false ("trunk ".toList ++ sourceIp ++ " presented local user '".toList ++ user ++ ['\'']))
      else .ok .trunk

/-- Neither the source nor the user is known. -/
def classifyUnknown (req : Request) (source : SocketAddr) (trunkIps anywhere : List (List Char)) :
    Except IdentityVerdict CallerIdentity :=
  let calleeRegistered := ((req.header "To").bind uriUser).any fun u => u ∈ anywhere
  if calleeRegistered ∧ sourceIsTrunkRelated trunkIps (showIp (NetAddr.ip source)) then .ok .trunk
  else .error (.forbidden true ("unregistered source ".toList ++ showAddr source ++ " (IP/From/To all unknown)".toList))

def classifyCaller (s : Sbc) (now : Nat) (trunkIps : List (List Char)) (req : Request) (source : SocketAddr)
    (isLocalhost isTrunkIp : Bool) (fromUser : Option (List Char)) :
    Except IdentityVerdict CallerIdentity × Sbc :=
  if isLocalhost then (.ok .localhost, s)
  else
    let sourceIp := showIp (NetAddr.ip source)
    let (here, anywhere) := registeredUsers G s now sourceIp
    if isTrunkIp then (classifyTrunk G s req sourceIp anywhere fromUser, s)
    else if here ≠ [] then
      match fromUser with
      | some u =>
          if u ∈ here then (.ok (.user u), s)
          else (.error (.forbidden false ("registered source ".toList ++ sourceIp ++ " (".toList ++
            List.intercalate [','] here ++ ") presented From '".toList ++ u ++ ['\''])), s)
      | none =>
          (.error (.forbidden false ("registered source ".toList ++ sourceIp ++ " (".toList ++
            List.intercalate [','] here ++ ") presented From '?'".toList)), s)
    else
      match fromUser with
      | some user =>
          if isLocalUser s user anywhere then proveCaller G s now req source user
          else (classifyUnknown req source trunkIps anywhere, s)
      | none => (classifyUnknown req source trunkIps anywhere, s)

/-- A challenge is drawn for a caller who is asked to prove itself. -/
def answerIdentityVerdict (s : Sbc) (draw : Draw) : IdentityVerdict → Sbc
  | .challenge stale =>
      match s.auth with
      | some a => { s with auth := some (challenge a draw stale).2 }
      | none => s
  | _ => s

/-- The part of an INVITE's handling that decides who is calling. -/
def identifyCaller (s : Sbc) (now : Nat) (draw : Draw) (trunkIps : List (List Char)) (req : Request)
    (source : SocketAddr) : Except IdentityVerdict CallerIdentity × Sbc :=
  let sourceIp := showIp (NetAddr.ip source)
  let isLocalhost := sourceIp = "127.0.0.1".toList ∨ sourceIp = "::1".toList
  let r := classifyCaller G s now trunkIps req source isLocalhost (sourceIp ∈ trunkIps)
    ((req.header "From").bind G.fromUser)
  match r with
  | (.ok caller, s) => (.ok caller, s)
  | (.error verdict, s) => (.error verdict, answerIdentityVerdict s draw verdict)

inductive Event
  | register (draw : Draw) (req : Request) (source : SocketAddr) (transport : Transport) (replyTx : Option Nat)
  | invite (draw : Draw) (trunkIps : List (List Char)) (req : Request) (source : SocketAddr)
  | cleanup
  | connectionClosed (peer : SocketAddr)
  | setUsers (users : Table (List Char) (List Char))

/-- The bindings of a closed connection are removed. -/
def closeConnection (registrar : InMemoryRegistrar) (now : Nat) (peer : SocketAddr) : InMemoryRegistrar :=
  (registrar.regs.entries.filter fun e => toSecs now < e.2.expiresAt ∧ e.2.receivedIp = showIp (NetAddr.ip peer) ∧
    e.2.receivedPort = NetAddr.port peer ∧ (e.2.transport = "WS".toList ∨ e.2.transport = "WSS".toList)).foldl
      (fun s e => (unregisterBinding s now e.2.aor e.2.bindingKey none).2) registrar

def next (s : Sbc) : Nat × Event → Sbc
  | (now, .register draw req source transport replyTx) => (handleRegister G s now draw req source transport replyTx).2
  | (now, .invite draw trunkIps req source) => (identifyCaller G s now draw trunkIps req source).2
  | (now, .cleanup) =>
      ⟨s.auth.map fun a => (cleanupNonces a now).2, (cleanupExpired G.order s.registrar now).2⟩
  | (now, .connectionClosed peer) => { s with registrar := closeConnection s.registrar now peer }
  | (_, .setUsers users) => { s with auth := s.auth.map fun a => (setUsersHa1 a users).2 }

example : canonicalAor "\"A\" <SIP:alice@Example.COM:5060;x=1>".toList = "sip:alice@example.com".toList := by decide
example : uriUser "sip:alice@example.com".toList = some "alice".toList := by decide

end NixiSbc.Identity
