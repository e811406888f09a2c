import NixiSbc.TextFields
import NixiSbc.KeyedTable
import Mathlib.Data.List.Basic

namespace NixiSbc.Digest

open TextScan TextFields KeyedTable

/-- The words of a hash in the order in which they are printed. Nothing here
depends on which hash it is. -/
abbrev Md5 := List Char → UInt32 × UInt32 × UInt32 × UInt32

def anyHash : Md5 := fun _ => (0, 0, 0, 0)

section

variable (D : Md5)

def md5Hex (text : List Char) : List Char :=
  showHex 8 (D text).1.toNat ++ showHex 8 (D text).2.1.toNat ++ showHex 8 (D text).2.2.1.toNat ++
    showHex 8 (D text).2.2.2.toNat

def computeHa1 (username realm password : List Char) : List Char :=
  md5Hex D (username ++ ':' :: realm ++ ':' :: password)

def computeHa2 (method uri : List Char) : List Char := md5Hex D (method ++ ':' :: uri)

def computeResponse (ha1 nonce ha2 : List Char) : List Char :=
  md5Hex D (ha1 ++ ':' :: nonce ++ ':' :: ha2)

def computeResponseAuth (ha1 nonce nc cnonce ha2 : List Char) : List Char :=
  md5Hex D (ha1 ++ ':' :: nonce ++ ':' :: nc ++ ':' :: cnonce ++ ":auth:".toList ++ ha2)

end

/-- Key and value of one part of a header, without blanks and quotes around it. -/
def parameter (part : List Char) : Option (List Char × List Char) :=
  (splitOnce '=' (trim part)).map fun p => (trim p.1, trimMatches '"' (trim p.2))

def parameters (value : List Char) : List (List Char × List Char) :=
  (value.splitOn ',').filterMap parameter

structure DigestChallenge where
  realm : List Char
  nonce : List Char
  algorithm : List Char
  qop : Option (List Char)
  opaqueText : Option (List Char)
  deriving DecidableEq

def DigestChallenge.set (c : DigestChallenge) (p : List Char × List Char) : DigestChallenge :=
  if p.1 = "realm".toList then { c with realm := p.2 }
  else if p.1 = "nonce".toList then { c with nonce := p.2 }
  else if p.1 = "algorithm".toList then { c with algorithm := p.2 }
  else if p.1 = "qop".toList then { c with qop := some p.2 }
  else if p.1 = "opaque".toList then { c with opaqueText := some p.2 }
  else c

def DigestChallenge.fromHeader (value : List Char) : Except (List Char) DigestChallenge :=
  match stripPrefix "Digest ".toList (trim value) with
  | none => .error "Challenge must start with 'Digest '".toList
  | some value =>
      let challenge := (parameters value).foldl DigestChallenge.set ⟨[], [], "MD5".toList, none, none⟩
      if challenge.realm = [] ∨ challenge.nonce = [] then
        .error "Incomplete Digest challenge (missing realm or nonce)".toList
      else .ok challenge

def quoted (key value : List Char) : List Char := key ++ '=' :: '"' :: value ++ ['"']

/-- Response, nonce count and client nonce, for a quality of protection that is
offered as one that contains `auth`. -/
def answer (D : Md5) (username password : List Char) (challenge : DigestChallenge)
    (method digestUri : List Char) (cnonce : UInt32) : List Char × Option (List Char × List Char) :=
  let ha1 := computeHa1 D username challenge.realm password
  let ha2 := computeHa2 D method digestUri
  if challenge.qop.any fun qop => decide ("auth".toList <:+: qop) then
    let cnonce := showHex 8 cnonce.toNat
    let nc := "00000001".toList
    (computeResponseAuth D ha1 challenge.nonce nc cnonce ha2, some (nc, cnonce))
  else (computeResponse D ha1 challenge.nonce ha2, none)

def generateDigestResponse (D : Md5) (username password : List Char) (challenge : DigestChallenge)
    (method digestUri : List Char) (cnonce : UInt32) : List Char :=
  let r := answer D username password challenge method digestUri cnonce
  "Digest ".toList ++ quoted "username".toList username ++ ", ".toList ++
    quoted "realm".toList challenge.realm ++ ", ".toList ++ quoted "nonce".toList challenge.nonce ++
    ", ".toList ++ quoted "uri".toList digestUri ++ ", ".toList ++ quoted "response".toList r.1 ++
    ", algorithm=".toList ++ challenge.algorithm ++
    (match r.2 with
      | some (nc, cnonce) => ", qop=auth, nc=".toList ++ nc ++ ", ".toList ++ quoted "cnonce".toList cnonce
      | none => []) ++
    match challenge.opaqueText with
    | some text => ", ".toList ++ quoted "opaque".toList text
    | none => []

structure DigestCredentials where
  username : List Char
  realm : List Char
  nonce : List Char
  uri : List Char
  response : List Char
  algorithm : List Char
  qop : Option (List Char)
  nc : Option (List Char)
  cnonce : Option (List Char)
  deriving DecidableEq

def DigestCredentials.set (c : DigestCredentials) (p : List Char × List Char) : DigestCredentials :=
  if p.1 = "username".toList then { c with username := p.2 }
  else if p.1 = "realm".toList then { c with realm := p.2 }
  else if p.1 = "nonce".toList then { c with nonce := p.2 }
  else if p.1 = "uri".toList then { c with uri := p.2 }
  else if p.1 = "response".toList then { c with response := p.2 }
  else if p.1 = "algorithm".toList then { c with algorithm := p.2 }
  else if p.1 = "qop".toList then { c with qop := some p.2 }
  else if p.1 = "nc".toList then { c with nc := some p.2 }
  else if p.1 = "cnonce".toList then { c with cnonce := some p.2 }
  else c

def DigestCredentials.fromHeader (value : List Char) : Except (List Char) DigestCredentials :=
  match stripPrefix "Digest ".toList (trim value) with
  | none => .error "Authorization header must start with 'Digest '".toList
  | some value =>
      let creds := (parameters value).foldl DigestCredentials.set
        ⟨[], [], [], [], [], "MD5".toList, none, none, none⟩
      if creds.username = [] ∨ creds.realm = [] ∨ creds.nonce = [] ∨ creds.response = [] then
        .error "Incomplete Digest credentials".toList
      else .ok creds

structure NonceRecord where
  createdAt : Nat
  useCount : UInt32
  lastNc : UInt32
  lastFingerprint : Option UInt64
  deriving DecidableEq

inductive AuthFailure
  | staleNonce (user : List Char)
  | replay (user : List Char)
  | badCredentials (user : List Char)
  | unknownUser (user : List Char)
  | malformed
  deriving DecidableEq

structure DigestAuthenticator where
  realm : List Char
  nonces : Table (List Char) NonceRecord
  nonceTtl : Nat
  users : Table (List Char) (List Char)

def maxNonces : Nat := 100000

/-- Stands in for the HA1 of a user that does not exist. -/
def dummyHa1 : List Char := List.replicate 32 '0'

def buildHa1Map (D : Md5) (realm : List Char) (users : Table (List Char) (List Char)) :
    Table (List Char) (List Char) :=
  sweep (fun u p => some (computeHa1 D u realm p)) users

def DigestAuthenticator.new (D : Md5) (realm : List Char) (users : Table (List Char) (List Char)) :
    DigestAuthenticator :=
  ⟨realm, ∅, 300, buildHa1Map D realm users⟩

/-- The text of sixteen random bytes. -/
def generateNonce (bytes : Vector UInt8 16) : List Char :=
  bytes.toList.flatMap fun b => showHex 2 b.toNat

/-- The record is at most so many seconds old. -/
def isYoung (now ttl : Nat) (r : NonceRecord) : Bool := now - r.createdAt ≤ ttl

/-- Without the expired records, without the older half, and at last without any,
as long as there is no room. -/
def evictNonces (now ttl : Nat) (nonces : Table (List Char) NonceRecord) :
    Table (List Char) NonceRecord :=
  if maxNonces ≤ size nonces then
    let nonces := retain (isYoung now ttl) nonces
    let nonces := if maxNonces ≤ size nonces then retain (isYoung now (ttl / 2)) nonces else nonces
    if maxNonces ≤ size nonces then ∅ else nonces
  else nonces

/-- The clock is read for the record first, and again under the lock. -/
def generateChallengeWith (a : DigestAuthenticator) (created now : Nat) (bytes : Vector UInt8 16)
    (stale : Bool) : List Char × DigestAuthenticator :=
  let nonce := generateNonce bytes
  ("Digest ".toList ++ quoted "realm".toList a.realm ++ ", ".toList ++ quoted "nonce".toList nonce ++
      ", algorithm=MD5, ".toList ++ quoted "qop".toList "auth".toList ++
      (if stale then ", stale=true".toList else []),
    { a with nonces := (evictNonces now a.nonceTtl a.nonces).insert nonce ⟨created, 0, 0, none⟩ })

def generateChallenge (a : DigestAuthenticator) (created now : Nat) (bytes : Vector UInt8 16) :
    List Char × DigestAuthenticator :=
  generateChallengeWith a created now bytes false

def DigestCredentials.qopAuth (creds : DigestCredentials) : Bool := creds.qop = some "auth".toList

/-- The response that the credentials should carry. -/
def expected (D : Md5) (ha1 method : List Char) (creds : DigestCredentials) : List Char :=
  let ha2 := computeHa2 D method creds.uri
  if creds.qopAuth then
    computeResponseAuth D ha1 creds.nonce (creds.nc.getD "00000001".toList) (creds.cnonce.getD []) ha2
  else computeResponse D ha1 creds.nonce ha2

def digestOk (D : Md5) (a : DigestAuthenticator) (method : List Char) (creds : DigestCredentials) : Bool :=
  let ha1 := a.users.lookup creds.username
  ha1.isSome && decide (expected D (ha1.getD dummyHa1) method creds = creds.response)

theorem digestOk_of_expected {D : Md5} {a : DigestAuthenticator} {ha1 method : List Char}
    {creds : DigestCredentials} (hlookup : a.users.lookup creds.username = some ha1)
    (hresponse : expected D ha1 method creds = creds.response) : digestOk D a method creds = true := by
  simp [digestOk, hlookup, hresponse]

/-- The nonce count that the credentials carry. -/
def DigestCredentials.count (creds : DigestCredentials) : Option UInt32 :=
  creds.nc.bind fun nc => parseHexU32 (trim nc)

/-- One more use of a nonce: the count advances or the request is repeated; without
a count the nonce is good for one use. -/
def useNonce (record : NonceRecord) (creds : DigestCredentials) (fingerprint : Option UInt64) :
    Except AuthFailure NonceRecord :=
  if creds.qopAuth then
    match creds.count with
    | none => .error (.staleNonce creds.username)
    | some nc =>
        if record.lastNc < nc then
          .ok { record with lastNc := nc, lastFingerprint := fingerprint, useCount := record.useCount + 1 }
        else if nc = record.lastNc ∧ fingerprint.isSome ∧ fingerprint = record.lastFingerprint then
          .ok { record with useCount := record.useCount + 1 }
        else .error (.replay creds.username)
  else if 0 < record.useCount then .error (.staleNonce creds.username)
  else .ok { record with useCount := record.useCount + 1 }

def verifyWith (D : Md5) (a : DigestAuthenticator) (now : Nat) (authHeader method : List Char)
    (fingerprint : Option UInt64) : Except AuthFailure (List Char) × DigestAuthenticator :=
  match DigestCredentials.fromHeader authHeader with
  | .error _ => (.error .malformed, a)
  | .ok creds =>
      match a.nonces.lookup creds.nonce with
      | none => (.error (.staleNonce creds.username), a)
      | some record =>
          if isYoung now a.nonceTtl record = false then
            (.error (if digestOk D a method creds then .staleNonce creds.username
              else if a.users.lookup creds.username = none then .unknownUser creds.username
              else .badCredentials creds.username),
              { a with nonces := a.nonces.erase creds.nonce })
          else if a.users.lookup creds.username = none then (.error (.unknownUser creds.username), a)
          else if digestOk D a method creds = false then (.error (.badCredentials creds.username), a)
          else
            match useNonce record creds fingerprint with
            | .error failure => (.error failure, a)
            | .ok record => (.ok creds.username, { a with nonces := a.nonces.insert creds.nonce record })

/-- Right credentials are accepted when the nonce is good for one more use. -/
theorem verifyWith_accepted {D : Md5} {a : DigestAuthenticator} {now : Nat} {authHeader method : List Char}
    {fingerprint : Option UInt64} {creds : DigestCredentials} {record record' : NonceRecord}
    (hcreds : DigestCredentials.fromHeader authHeader = .ok creds)
    (hr : a.nonces.lookup creds.nonce = some record) (hyoung : isYoung now a.nonceTtl record = true)
    (hok : digestOk D a method creds = true) (hu : useNonce record creds fingerprint = .ok record') :
    verifyWith D a now authHeader method fingerprint =
      (.ok creds.username, { a with nonces := a.nonces.insert creds.nonce record' }) := by
  have huser : a.users.lookup creds.username ≠ none := by
    intro hnone
    rw [digestOk, hnone] at hok
    cases hok
  simp [verifyWith, hcreds, hr, hyoung, huser, hok, hu]

def verify (D : Md5) (a : DigestAuthenticator) (now : Nat) (authHeader method : List Char) :
    Except AuthFailure (List Char) × DigestAuthenticator :=
  verifyWith D a now authHeader method none

def cleanupNonces (a : DigestAuthenticator) (now : Nat) : Nat × DigestAuthenticator :=
  let nonces := retain (isYoung now a.nonceTtl) a.nonces
  (size a.nonces - size nonces, { a with nonces })

/-- How many users came, how many went, and how many there are. -/
def setUsersHa1 (a : DigestAuthenticator) (users : Table (List Char) (List Char)) :
    (Nat × Nat × Nat) × DigestAuthenticator :=
  ((users.keys.countP fun u => decide (u ∉ a.users.keys),
      a.users.keys.countP fun u => decide (u ∉ users.keys), size users),
    { a with users })

example : parameters "realm=\"a b\", nonce = x ,qop".toList =
    [("realm".toList, "a b".toList), ("nonce".toList, ['x'])] := by decide
example : parseHexU32 "+0000000A".toList = some 10 := by decide

end NixiSbc.Digest
