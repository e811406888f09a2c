import Mathlib
import NixiSbc.Acl
import NixiSbc.Destinations
import NixiSbc.RawSip
import NixiSbc.TextFields
import NixiSbc.Trunks
import NixiSbc.UserLimits

namespace NixiSbc.Hydration

open KeyedTable NetAddr RawSip TextFields TextScan Trunks Destinations Acl

inductive Error
  | config (text : List Char)
  deriving DecidableEq

structure UserRow where
  username : List Char
  ha1 : List Char
  enabled : Bool
  maxConcurrentCalls : Option Int64
  maxCallsPerMinute : Option Int64

structure DidRow where
  number : List Char
  sipUser : List Char
  displayName : Option (List Char)
  enabled : Bool

structure TrunkRow where
  name : List Char
  enabled : Bool
  host : List Char
  port : Int64
  transport : List Char
  authRequired : Bool
  username : Option (List Char)
  password : Option (List Char)
  realm : Option (List Char)
  registerWithTrunk : Bool
  registrationInterval : Int64
  prefixPatterns : List Char
  priority : Int64
  weight : Int64
  costPerMinute : Int64
  numberFormat : List Char
  countryCode : Option (List Char)
  nationalPrefix : Option (List Char)
  callerNumberFormat : Option (List Char)
  callerNumberOverride : Option (List Char)
  callerDisplayName : Option (List Char)
  allowedCodecs : List Char
  maxConcurrentCalls : Int64
  tlsSni : Option (List Char)
  tlsCaCert : Option (List Char)
  tlsVerify : Bool
  tlsClientCert : Option (List Char)
  tlsClientKey : Option (List Char)

structure RouteRow where
  dialPrefix : List Char
  trunkName : List Char
  enabled : Bool

structure AclRuleRow where
  id : List Char
  cidr : List Char
  action : List Char
  direction : List Char
  priority : Int64
  enabled : Bool
  comment : Option (List Char)

structure DestinationRuleRow where
  id : List Char
  dialPrefix : List Char
  action : List Char
  user : Option (List Char)
  description : List Char
  enabled : Bool

/-- The rows in the order of the queries; the names are primary keys. -/
structure ConfigStore where
  users : List UserRow
  dids : List DidRow
  trunks : List TrunkRow
  routes : List RouteRow
  aclRules : List AclRuleRow
  destinationRules : List DestinationRuleRow
  settings : List Char → Option (List Char)
  users_nodup : (users.map (·.username)).Nodup
  trunks_nodup : (trunks.map (·.name)).Nodup
  aclRules_nodup : (aclRules.map (·.id)).Nodup

/-- The reads of a hydration. -/
inductive Read
  | users
  | dids
  | trunks
  | routes
  | aclRules
  | aclDefaultAction
  | destinationRules
  | seedMarker
  | userLimits
  | defaultConcurrent
  | defaultCpm
  deriving DecidableEq

/-- The error of each read that fails. -/
abbrev Failures := Read → Option (List Char)

def load {α : Type} (fails : Failures) (read : Read) (what : String) (rows : α) : Except Error α :=
  match fails read with
  | some e => .error (.config (("load " ++ what ++ ": ").toList ++ e))
  | none => .ok rows

/-- A setting whose failing read is passed over. -/
def readSetting (fails : Failures) (read : Read) (store : ConfigStore) (key : String) : Option (List Char) :=
  if fails read = none then store.settings key.toList else none

def aclDefaultActionKey : String := "acl_default_action"
def settingDefaultConcurrent : String := "user_limits.default_max_concurrent_calls"
def settingDefaultCpm : String := "user_limits.default_max_calls_per_minute"
def destinationRulesSeededKey : String := "destination_rules_seeded_at"

structure DidMapping where
  number : List Char
  user : List Char
  displayName : Option (List Char)
  deriving DecidableEq

inductive TransportType
  | udp
  | tcp
  | tls
  | ws
  | wss
  deriving DecidableEq

structure TrunkConfig extends Trunks.TrunkConfig where
  transport : TransportType
  authRequired : Bool
  username : Option (List Char)
  password : Option (List Char)
  realm : Option (List Char)
  allowedCodecs : List (List Char)
  transcodingEnabled : Bool
  maxConcurrentCalls : UInt32
  callsPerSecond : UInt32
  allowedIps : List (List Char)
  registerWithTrunk : Bool
  registrationInterval : UInt64
  costPerMinute : UInt32
  priority : UInt32
  weight : UInt32
  prefixPatterns : List (List Char)
  callerNumberFormat : Option NumberFormat
  callerNumberOverride : Option (List Char)
  callerDisplayName : Option (List Char)
  tlsSni : Option (List Char)
  tlsCaCert : Option (List Char)
  tlsVerify : Bool
  tlsClientCert : Option (List Char)
  tlsClientKey : Option (List Char)
  deriving DecidableEq

/-- What the libraries answer: the case tables, the networks of rules and arrays
of strings in JSON, which are empty where they cannot be read. -/
structure Env where
  networks : Networks
  lowering : Lowering
  uppering : Uppering
  jsonStrings : List Char → List (List Char)

/-- One hydration: the store, the reads that fail, the ids that are drawn and the
addresses that hosts resolve to. -/
structure Pass where
  store : ConfigStore
  fails : Failures
  newId : List Char → TrunkId
  resolve : List Char → UInt16 → Option Stun.SocketAddr

structure UserLimitsManager extends UserLimits.UserLimitsManager where
  configDefaults : UInt32 × UInt32

/-- The trunks in the order of the map. An entry that was found is written again
under its own id, so writing to the map is writing in its place; the id of a new
one is fresh. -/
abbrev TrunkTable := List TrunkConfig

def findByName (l : TrunkTable) (name : List Char) : Option TrunkConfig := l.find? (·.name = name)

def addTrunk (l : TrunkTable) (config : TrunkConfig) : TrunkTable := l ++ [config]

/-- Write in the place of the first entry of a name. -/
def writeFirst (name : List Char) (config : TrunkConfig) : TrunkTable → TrunkTable
  | [] => []
  | t :: l => if t.name = name then config :: l else t :: writeFirst name config l

/-- What is written where a trunk of the name was found. -/
def merged (existing newConfig : TrunkConfig) : TrunkConfig :=
  { newConfig with
    id := existing.id
    resolvedAddr :=
      if newConfig.host = existing.host ∧ newConfig.port = existing.port then existing.resolvedAddr
      else newConfig.resolvedAddr }

def updateTrunkByName (l : TrunkTable) (name : List Char) (newConfig : TrunkConfig) : TrunkTable :=
  match findByName l name with
  | none => l
  | some existing => writeFirst name (merged existing newConfig) l

/-- The managers that a hydration writes to. -/
structure Runtime (E : Env) where
  users : Option (Table (List Char) (List Char))
  dids : List DidMapping
  trunks : TrunkTable
  acl : AclManager E.networks
  destinations : DestinationPolicy
  userLimits : UserLimitsManager

variable {E : Env}

def ha1Map (rows : List UserRow) : Table (List Char) (List Char) :=
  (rows.filter (·.enabled)).foldl (fun t row => t.insert row.username row.ha1) ∅

/-- Without digest authentication there is no table to fill. -/
def applyUsers (p : Pass) (r : Runtime E) : Except Error (Runtime E) :=
  match r.users with
  | none => .ok r
  | some _ => do
      let rows ← load p.fails .users "users" p.store.users
      return { r with users := some (ha1Map rows) }

def mappings (rows : List DidRow) : List DidMapping :=
  (rows.filter (·.enabled)).map fun row => ⟨row.number, row.sipUser, row.displayName⟩

def applyDids (p : Pass) (r : Runtime E) : Except Error (Runtime E) := do
  let rows ← load p.fails .dids "dids" p.store.dids
  return { r with dids := mappings rows }

def transportOf (V : Uppering) (text : List Char) : TransportType :=
  let upper := toUppercase V text
  if upper = "TCP".toList then .tcp
  else if upper = "TLS".toList then .tls
  else if upper = "WSS".toList then .wss
  else if upper = "WS".toList then .ws
  else .udp

def numberFormatOf (U : Lowering) (text : List Char) : NumberFormat :=
  let lower := toLowercase U text
  if lower = "national".toList then .national
  else if lower = "local".toList then .local
  else .e164

/-- A stored number is cut down to the width of the field. -/
def trunkRowToConfig (E : Env) (newId : List Char → TrunkId) (row : TrunkRow)
    (extraPrefixes : List (List Char)) : TrunkConfig where
  id := newId row.name
  name := row.name
  enabled := row.enabled
  host := row.host
  port := row.port.toUInt64.toUInt16
  resolvedAddr := none
  numberFormat := numberFormatOf E.lowering row.numberFormat
  countryCode := row.countryCode
  nationalPrefix := row.nationalPrefix
  transport := transportOf E.uppering row.transport
  authRequired := row.authRequired
  username := row.username
  password := row.password
  realm := row.realm
  allowedCodecs := E.jsonStrings row.allowedCodecs
  transcodingEnabled := false
  maxConcurrentCalls := row.maxConcurrentCalls.toUInt64.toUInt32
  callsPerSecond := 10
  allowedIps := []
  registerWithTrunk := row.registerWithTrunk
  registrationInterval := (max row.registrationInterval 0).toUInt64
  costPerMinute := row.costPerMinute.toUInt64.toUInt32
  priority := row.priority.toUInt64.toUInt32
  weight := row.weight.toUInt64.toUInt32
  prefixPatterns :=
    extraPrefixes.foldl (fun l pattern => if pattern ∈ l then l else l ++ [pattern]) (E.jsonStrings row.prefixPatterns)
  callerNumberFormat := row.callerNumberFormat.map (numberFormatOf E.lowering)
  callerNumberOverride := row.callerNumberOverride
  callerDisplayName := row.callerDisplayName
  tlsSni := row.tlsSni
  tlsCaCert := row.tlsCaCert
  tlsVerify := row.tlsVerify
  tlsClientCert := row.tlsClientCert
  tlsClientKey := row.tlsClientKey

/-- The dial patterns of the enabled routes of a trunk. -/
def routesByTrunk (rows : List RouteRow) (name : List Char) : List (List Char) :=
  (rows.filter fun row => row.enabled ∧ row.trunkName = name).map (·.dialPrefix)

def rowConfig (E : Env) (p : Pass) (row : TrunkRow) : TrunkConfig :=
  trunkRowToConfig E p.newId row (routesByTrunk p.store.routes row.name)

def resolveDestination (p : Pass) (cfg : TrunkConfig) : TrunkConfig :=
  { cfg with resolvedAddr := p.resolve cfg.host cfg.port }

/-- A host or port that changes is resolved again. -/
def applyRow (E : Env) (p : Pass) (l : TrunkTable) (row : TrunkRow) : TrunkTable :=
  let cfg := rowConfig E p row
  match findByName l row.name with
  | some existing =>
      updateTrunkByName l row.name
        (if existing.host ≠ cfg.host ∨ existing.port ≠ cfg.port then resolveDestination p cfg else cfg)
  | none => addTrunk l (resolveDestination p cfg)

def disableAbsent (names : List (List Char)) (l : TrunkTable) : TrunkTable :=
  l.map fun t => if t.name ∉ names ∧ t.enabled then { t with enabled := false } else t

def applyTrunksAndRoutes (p : Pass) (r : Runtime E) : Except Error (Runtime E) := do
  let trunkRows ← load p.fails .trunks "trunks" p.store.trunks
  let _ ← load p.fails .routes "routes" p.store.routes
  return { r with trunks := disableAbsent (trunkRows.map (·.name)) (trunkRows.foldl (applyRow E p) r.trunks) }

def actionOf (text : List Char) : AclAction := if text = "deny".toList then .deny else .allow

/-- A rule whose network does not parse is passed over. -/
def ruleOf (N : Networks) (row : AclRuleRow) : Option (AclRule N) :=
  (N.parse row.cidr).map fun cidr => {
    id := row.id
    name := row.id
    cidr
    action := actionOf row.action
    priority := row.priority.toInt32
    direction :=
      if row.direction = "inbound".toList then .inbound
      else if row.direction = "outbound".toList then .outbound
      else .both
    enabled := row.enabled
    comment := row.comment }

/-- A default action that is not stored, or not read, leaves the one in force. -/
def defaultAction (p : Pass) (inForce : AclAction) : AclAction :=
  match readSetting p.fails .aclDefaultAction p.store aclDefaultActionKey with
  | some text => actionOf text
  | none => inForce

def applyAcl (p : Pass) (r : Runtime E) : Except Error (Runtime E) := do
  let rows ← load p.fails .aclRules "acl" p.store.aclRules
  let acl := r.acl.replaceRules (rows.filterMap (ruleOf E.networks))
  return { r with acl := acl.setDefaultAction (defaultAction p acl.defaultAction) }

def destinationRuleOf (row : DestinationRuleRow) : DestinationRule where
  id := row.id
  dialPrefix := row.dialPrefix
  deny := toAsciiLowercase row.action = "deny".toList
  user := row.user
  description := row.description
  enabled := row.enabled

/-- Without rows the rules in memory stay until the store has been seeded. -/
def applyDestinations (p : Pass) (r : Runtime E) : Except Error (Runtime E) := do
  let rows ← load p.fails .destinationRules "destination rules" p.store.destinationRules
  if rows = [] then
    let marker ← load p.fails .seedMarker "seed marker" (p.store.settings destinationRulesSeededKey.toList)
    match marker with
    | some _ => return { r with destinations := { r.destinations with rules := [] } }
    | none => return r
  else return { r with destinations := { r.destinations with rules := rows.map destinationRuleOf } }

def clamp (v : Int64) : UInt32 := UInt32.ofNat (min (max v 0).toInt.toNat (2 ^ 32 - 1))

def overridesOf (rows : List UserRow) : Table (List Char) UserLimits.Limits :=
  (rows.filter fun row => row.maxConcurrentCalls.isSome ∨ row.maxCallsPerMinute.isSome).foldl
    (fun t row => t.insert row.username ⟨row.maxConcurrentCalls.map clamp, row.maxCallsPerMinute.map clamp⟩) ∅

/-- Both settings together replace the defaults of the file. -/
def limitDefaults (p : Pass) (configDefaults : UInt32 × UInt32) : UInt32 × UInt32 :=
  match (readSetting p.fails .defaultConcurrent p.store settingDefaultConcurrent).bind parseU32,
      (readSetting p.fails .defaultCpm p.store settingDefaultCpm).bind parseU32 with
  | some c, some m => (c, m)
  | _, _ => configDefaults

def applyUserLimits (p : Pass) (r : Runtime E) : Except Error (Runtime E) := do
  let rows ← load p.fails .userLimits "user limits" p.store.users
  return { r with
    userLimits := { r.userLimits with
      overrides := overridesOf rows
      defaults := limitDefaults p r.userLimits.configDefaults } }

/-- Each applier works on what the ones before it left, and nothing is undone. -/
def runAll {S ε : Type} : List (S → Except ε S) → S → Except ε Unit × S
  | [], s => (.ok (), s)
  | apply :: rest, s =>
      match apply s with
      | .error e => (.error e, s)
      | .ok s => runAll rest s

def hydrateAll (p : Pass) (r : Runtime E) : Except Error Unit × Runtime E :=
  runAll [applyUsers p, applyDids p, applyTrunksAndRoutes p, applyAcl p, applyDestinations p, applyUserLimits p] r

end NixiSbc.Hydration
