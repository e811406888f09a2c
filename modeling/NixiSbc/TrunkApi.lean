import NixiSbc.Hydration

namespace NixiSbc.TrunkApi

open RawSip TextFields Hydration

/-- A JSON value, as far as a field of a trunk can hold it: fractions, objects and
arrays of anything but strings are refused everywhere. -/
inductive Json
  | null
  | bool (b : Bool)
  | int (n : Int)
  | str (s : List Char)
  | strs (l : List (List Char))
  | other
  deriving DecidableEq

inductive Field
  | name
  | enabled
  | host
  | port
  | transport
  | authRequired
  | username
  | password
  | realm
  | registerWithTrunk
  | registrationInterval
  | prefixPatterns
  | priority
  | weight
  | costPerMinute
  | numberFormat
  | countryCode
  | nationalPrefix
  | callerNumberFormat
  | callerNumberOverride
  | callerDisplayName
  | allowedCodecs
  | maxConcurrentCalls
  | tlsSni
  | tlsCaCert
  | tlsVerify
  | tlsClientCert
  | tlsClientKey
  deriving DecidableEq

def Field.key : Field → String
  | .name => "name"
  | .enabled => "enabled"
  | .host => "host"
  | .port => "port"
  | .transport => "transport"
  | .authRequired => "auth_required"
  | .username => "username"
  | .password => "password"
  | .realm => "realm"
  | .registerWithTrunk => "register_with_trunk"
  | .registrationInterval => "registration_interval"
  | .prefixPatterns => "prefix_patterns"
  | .priority => "priority"
  | .weight => "weight"
  | .costPerMinute => "cost_per_minute"
  | .numberFormat => "number_format"
  | .countryCode => "country_code"
  | .nationalPrefix => "national_prefix"
  | .callerNumberFormat => "caller_number_format"
  | .callerNumberOverride => "caller_number_override"
  | .callerDisplayName => "caller_display_name"
  | .allowedCodecs => "allowed_codecs"
  | .maxConcurrentCalls => "max_concurrent_calls"
  | .tlsSni => "tls_sni"
  | .tlsCaCert => "tls_ca_cert"
  | .tlsVerify => "tls_verify"
  | .tlsClientCert => "tls_client_cert"
  | .tlsClientKey => "tls_client_key"

def fields : List Field :=
  [.name, .enabled, .host, .port, .transport, .authRequired, .username, .password, .realm, .registerWithTrunk,
    .registrationInterval, .prefixPatterns, .priority, .weight, .costPerMinute, .numberFormat, .countryCode,
    .nationalPrefix, .callerNumberFormat, .callerNumberOverride, .callerDisplayName, .allowedCodecs,
    .maxConcurrentCalls, .tlsSni, .tlsCaCert, .tlsVerify, .tlsClientCert, .tlsClientKey]

def fieldOf (key : List Char) : Option Field := fields.find? (·.key.toList = key)

structure TrunkBody where
  name : Option (List Char)
  enabled : Bool
  host : Option (List Char)
  port : UInt16
  transport : List Char
  authRequired : Bool
  username : Option (List Char)
  password : Option (List Char)
  realm : Option (List Char)
  registerWithTrunk : Bool
  registrationInterval : UInt64
  prefixPatterns : List (List Char)
  priority : UInt32
  weight : UInt32
  costPerMinute : UInt32
  numberFormat : List Char
  countryCode : Option (List Char)
  nationalPrefix : Option (List Char)
  callerNumberFormat : Option (List Char)
  callerNumberOverride : Option (List Char)
  callerDisplayName : Option (List Char)
  allowedCodecs : List (List Char)
  maxConcurrentCalls : UInt32
  tlsSni : Option (List Char)
  tlsCaCert : Option (List Char)
  tlsVerify : Bool
  tlsClientCert : Option (List Char)
  tlsClientKey : Option (List Char)

/-- The answer to a request that fails; what a value is refused for is the parser's text. -/
inductive ApiError
  | badRequest (message : List Char)
  | notFound (message : List Char)
  | conflict (message : List Char)
  | invalidTrunk
  deriving DecidableEq

/-- Arrays of strings in JSON; what cannot be read is empty. -/
structure StringArrays where
  parse : List Char → List (List Char)
  print : List (List Char) → List Char
  parse_print : ∀ l, parse (print l) = l

def masked : List Char := "***".toList

def transports : List (List Char) :=
  ["UDP".toList, "TCP".toList, "TLS".toList, "WS".toList, "WSS".toList]

/-- The keys and values of a JSON object. -/
structure Patch where
  entries : List (List Char × Json)
  nodup : (entries.map (·.1)).Nodup

section

variable (J : StringArrays) (V : Uppering)

/-- The columns of a body that has passed. -/
def TrunkBody.row (body : TrunkBody) (name host transport : List Char) : TrunkRow where
  name := name
  enabled := body.enabled
  host := host
  port := Int64.ofNat body.port.toNat
  transport := transport
  authRequired := body.authRequired
  username := body.username
  password := body.password
  realm := body.realm
  registerWithTrunk := body.registerWithTrunk
  registrationInterval := body.registrationInterval.toInt64
  prefixPatterns := J.print body.prefixPatterns
  priority := Int64.ofNat body.priority.toNat
  weight := Int64.ofNat body.weight.toNat
  costPerMinute := Int64.ofNat body.costPerMinute.toNat
  numberFormat := body.numberFormat
  countryCode := body.countryCode
  nationalPrefix := body.nationalPrefix
  callerNumberFormat := body.callerNumberFormat
  callerNumberOverride := body.callerNumberOverride
  callerDisplayName := body.callerDisplayName
  allowedCodecs := J.print body.allowedCodecs
  maxConcurrentCalls := Int64.ofNat body.maxConcurrentCalls.toNat
  tlsSni := body.tlsSni
  tlsCaCert := body.tlsCaCert
  tlsVerify := body.tlsVerify
  tlsClientCert := body.tlsClientCert
  tlsClientKey := body.tlsClientKey

def TrunkBody.intoRow (body : TrunkBody) (name : List Char) : Except ApiError TrunkRow :=
  if body.password = some masked then
    .error (.badRequest "password is masked (\"***\"); omit it to keep the current one".toList)
  else
    match body.host.filter (· ≠ []) with
    | none => .error (.badRequest "missing required field: host".toList)
    | some host =>
        if toUppercase V body.transport ∉ transports then
          .error (.badRequest "transport must be UDP, TCP, TLS, WS or WSS".toList)
        else .ok (body.row J name host (toUppercase V body.transport))

def optional : Option (List Char) → Json
  | none => .null
  | some s => .str s

/-- The row as a body, secret included. -/
def trunkBodyJson (row : TrunkRow) : Field → Json
  | .name => .str row.name
  | .enabled => .bool row.enabled
  | .host => .str row.host
  | .port => .int row.port.toInt
  | .transport => .str row.transport
  | .authRequired => .bool row.authRequired
  | .username => optional row.username
  | .password => optional row.password
  | .realm => optional row.realm
  | .registerWithTrunk => .bool row.registerWithTrunk
  | .registrationInterval => .int row.registrationInterval.toInt
  | .prefixPatterns => .strs (J.parse row.prefixPatterns)
  | .priority => .int row.priority.toInt
  | .weight => .int row.weight.toInt
  | .costPerMinute => .int row.costPerMinute.toInt
  | .numberFormat => .str row.numberFormat
  | .countryCode => optional row.countryCode
  | .nationalPrefix => optional row.nationalPrefix
  | .callerNumberFormat => optional row.callerNumberFormat
  | .callerNumberOverride => optional row.callerNumberOverride
  | .callerDisplayName => optional row.callerDisplayName
  | .allowedCodecs => .strs (J.parse row.allowedCodecs)
  | .maxConcurrentCalls => .int row.maxConcurrentCalls.toInt
  | .tlsSni => optional row.tlsSni
  | .tlsCaCert => optional row.tlsCaCert
  | .tlsVerify => .bool row.tlsVerify
  | .tlsClientCert => optional row.tlsClientCert
  | .tlsClientKey => optional row.tlsClientKey

/-- A key that no row has is an error. -/
def mergePatch (base : Field → Json) : List (List Char × Json) → Except ApiError (Field → Json)
  | [] => .ok base
  | (k, v) :: patch =>
      match fieldOf k with
      | none => .error (.badRequest ("unknown field '".toList ++ k ++ ['\'']))
      | some f => mergePatch (Function.update base f v) patch

def asBool : Json → Option Bool
  | .bool b => some b
  | _ => none

def asUnsigned (bits : Nat) : Json → Option Nat
  | .int n => if 0 ≤ n ∧ n.toNat < 2 ^ bits then some n.toNat else none
  | _ => none

def asString : Json → Option (List Char)
  | .str s => some s
  | _ => none

def asOptional : Json → Option (Option (List Char))
  | .null => some none
  | .str s => some (some s)
  | _ => none

def asStrings : Json → Option (List (List Char))
  | .strs l => some l
  | _ => none

def fromValue (base : Field → Json) : Option TrunkBody := do
  let name ← asOptional (base .name)
  let enabled ← asBool (base .enabled)
  let host ← asOptional (base .host)
  let port ← asUnsigned 16 (base .port)
  let transport ← asString (base .transport)
  let authRequired ← asBool (base .authRequired)
  let username ← asOptional (base .username)
  let password ← asOptional (base .password)
  let realm ← asOptional (base .realm)
  let registerWithTrunk ← asBool (base .registerWithTrunk)
  let registrationInterval ← asUnsigned 64 (base .registrationInterval)
  let prefixPatterns ← asStrings (base .prefixPatterns)
  let priority ← asUnsigned 32 (base .priority)
  let weight ← asUnsigned 32 (base .weight)
  let costPerMinute ← asUnsigned 32 (base .costPerMinute)
  let numberFormat ← asString (base .numberFormat)
  let countryCode ← asOptional (base .countryCode)
  let nationalPrefix ← asOptional (base .nationalPrefix)
  let callerNumberFormat ← asOptional (base .callerNumberFormat)
  let callerNumberOverride ← asOptional (base .callerNumberOverride)
  let callerDisplayName ← asOptional (base .callerDisplayName)
  let allowedCodecs ← asStrings (base .allowedCodecs)
  let maxConcurrentCalls ← asUnsigned 32 (base .maxConcurrentCalls)
  let tlsSni ← asOptional (base .tlsSni)
  let tlsCaCert ← asOptional (base .tlsCaCert)
  let tlsVerify ← asBool (base .tlsVerify)
  let tlsClientCert ← asOptional (base .tlsClientCert)
  let tlsClientKey ← asOptional (base .tlsClientKey)
  return {
    name, enabled, host, transport, authRequired, username, password, realm, registerWithTrunk, prefixPatterns,
    numberFormat, countryCode, nationalPrefix, callerNumberFormat, callerNumberOverride, callerDisplayName,
    allowedCodecs, tlsSni, tlsCaCert, tlsVerify, tlsClientCert, tlsClientKey
    port := UInt16.ofNat port
    registrationInterval := UInt64.ofNat registrationInterval
    priority := UInt32.ofNat priority
    weight := UInt32.ofNat weight
    costPerMinute := UInt32.ofNat costPerMinute
    maxConcurrentCalls := UInt32.ofNat maxConcurrentCalls }

/-- What a PATCH makes of the row that it read. A body that is no object has no patch. -/
def patchTrunk (name : List Char) (patch : Option Patch) (existing : Option TrunkRow) : Except ApiError TrunkRow :=
  match existing with
  | none => .error (.notFound ("trunk '".toList ++ name ++ "' not found".toList))
  | some existing =>
      match patch with
      | none => .error (.badRequest "PATCH body must be a JSON object".toList)
      | some patch =>
          match mergePatch (trunkBodyJson J existing) patch.entries with
          | .error e => .error e
          | .ok base =>
              match fromValue base with
              | none => .error .invalidTrunk
              | some body => body.intoRow J V name

/-- What a POST makes of the row that it found, which should be none. -/
def createTrunk (body : TrunkBody) (existing : Option TrunkRow) : Except ApiError TrunkRow :=
  match body.name.filter (· ≠ []) with
  | none => .error (.badRequest "missing required field: name".toList)
  | some name =>
      if existing.isSome then .error (.conflict ("trunk '".toList ++ name ++ "' already exists".toList))
      else body.intoRow J V name

/-- What is stored of a value: names of transports are upper-cased. -/
def stored : Field → Json → Json
  | .transport, .str s => .str (toUppercase V s)
  | _, v => v

/-- The body in the shape that it was read from. -/
def TrunkBody.json (body : TrunkBody) : Field → Json
  | .name => optional body.name
  | .enabled => .bool body.enabled
  | .host => optional body.host
  | .port => .int body.port.toNat
  | .transport => .str body.transport
  | .authRequired => .bool body.authRequired
  | .username => optional body.username
  | .password => optional body.password
  | .realm => optional body.realm
  | .registerWithTrunk => .bool body.registerWithTrunk
  | .registrationInterval => .int body.registrationInterval.toNat
  | .prefixPatterns => .strs body.prefixPatterns
  | .priority => .int body.priority.toNat
  | .weight => .int body.weight.toNat
  | .costPerMinute => .int body.costPerMinute.toNat
  | .numberFormat => .str body.numberFormat
  | .countryCode => optional body.countryCode
  | .nationalPrefix => optional body.nationalPrefix
  | .callerNumberFormat => optional body.callerNumberFormat
  | .callerNumberOverride => optional body.callerNumberOverride
  | .callerDisplayName => optional body.callerDisplayName
  | .allowedCodecs => .strs body.allowedCodecs
  | .maxConcurrentCalls => .int body.maxConcurrentCalls.toNat
  | .tlsSni => optional body.tlsSni
  | .tlsCaCert => optional body.tlsCaCert
  | .tlsVerify => .bool body.tlsVerify
  | .tlsClientCert => optional body.tlsClientCert
  | .tlsClientKey => optional body.tlsClientKey

end

variable {J : StringArrays} {V : Uppering}

theorem nodup_keys : (fields.map Field.key).Nodup := by simp [fields, Field.key]

theorem mem_fields (f : Field) : f ∈ fields := by
  cases f <;> decide

theorem key_of_fieldOf {k : List Char} {f : Field} (h : fieldOf k = some f) : f.key.toList = k := by
  simpa using List.find?_some h

theorem fieldOf_key (f : Field) : fieldOf f.key.toList = some f := by
  cases hfind : fieldOf f.key.toList with
  | none =>
      have hnot := List.find?_eq_none.mp hfind f (mem_fields f)
      exact absurd (decide_eq_true rfl) hnot
  | some g =>
      have hkey := String.toList_inj.mp (key_of_fieldOf hfind)
      rw [List.inj_on_of_nodup_map nodup_keys (mem_fields g) (mem_fields f) hkey]

theorem mergePatch_spec {base merged : Field → Json} {entries : List (List Char × Json)}
    (h : mergePatch base entries = .ok merged) (hnodup : (entries.map (·.1)).Nodup) :
    (∀ e ∈ entries, ∃ f, fieldOf e.1 = some f ∧ merged f = e.2) ∧
      ∀ f : Field, f.key.toList ∉ entries.map (·.1) → merged f = base f := by
  induction entries generalizing base with
  | nil =>
      rw [mergePatch, Except.ok.injEq] at h
      subst h
      exact ⟨fun e he => absurd he List.not_mem_nil, fun f _ => rfl⟩
  | cons e entries ih =>
      obtain ⟨k, v⟩ := e
      rw [mergePatch] at h
      rw [List.map_cons, List.nodup_cons] at hnodup
      cases hf : fieldOf k with
      | none =>
          rw [hf] at h
          cases h
      | some f =>
          rw [hf] at h
          obtain ⟨hset, hkept⟩ := ih h hnodup.2
          have hk := key_of_fieldOf hf
          constructor
          · intro e he
            rcases List.mem_cons.mp he with rfl | he
            · refine ⟨f, hf, ?_⟩
              rw [hkept f (by rw [hk]; exact hnodup.1), Function.update_self]
            · exact hset e he
          · intro g hg
            rw [List.map_cons, List.mem_cons, not_or] at hg
            rw [hkept g hg.2, Function.update_of_ne]
            rintro rfl
            exact hg.1 hk

theorem asBool_eq {v : Json} {b : Bool} (h : asBool v = some b) : .bool b = v := by
  cases v <;> simp_all [asBool]

theorem asString_eq {v : Json} {s : List Char} (h : asString v = some s) : .str s = v := by
  cases v <;> simp_all [asString]

theorem asOptional_eq {v : Json} {s : Option (List Char)} (h : asOptional v = some s) : optional s = v := by
  cases v <;> simp_all [asOptional, optional]
  · subst h
    rfl
  · subst h
    rfl

theorem asStrings_eq {v : Json} {l : List (List Char)} (h : asStrings v = some l) : .strs l = v := by
  cases v <;> simp_all [asStrings]

/-- The number as its type reads it back, which is the number itself below the width of the type. -/
theorem asUnsigned_eq {bits n m : Nat} {v : Json} (h : asUnsigned bits v = some n) (hm : n < 2 ^ bits → m = n) :
    .int m = v := by
  cases v with
  | int k =>
      rw [asUnsigned] at h
      split at h
      next hk =>
        rw [Option.some.injEq] at h
        subst h
        rw [hm hk.2, Int.toNat_of_nonneg hk.1]
      next => cases h
  | _ => cases h

theorem fromValue_json {base : Field → Json} {body : TrunkBody} (h : fromValue base = some body) (f : Field) :
    body.json f = base f := by
  rw [fromValue] at h
  obtain ⟨name, hName, h⟩ := Option.bind_eq_some_iff.mp h
  obtain ⟨enabled, hEnabled, h⟩ := Option.bind_eq_some_iff.mp h
  obtain ⟨host, hHost, h⟩ := Option.bind_eq_some_iff.mp h
  obtain ⟨port, hPort, h⟩ := Option.bind_eq_some_iff.mp h
  obtain ⟨transport, hTransport, h⟩ := Option.bind_eq_some_iff.mp h
  obtain ⟨authRequired, hAuthRequired, h⟩ := Option.bind_eq_some_iff.mp h
  obtain ⟨username, hUsername, h⟩ := Option.bind_eq_some_iff.mp h
  obtain ⟨password, hPassword, h⟩ := Option.bind_eq_some_iff.mp h
  obtain ⟨realm, hRealm, h⟩ := Option.bind_eq_some_iff.mp h
  obtain ⟨registerWithTrunk, hRegisterWithTrunk, h⟩ := Option.bind_eq_some_iff.mp h
  obtain ⟨registrationInterval, hRegistrationInterval, h⟩ := Option.bind_eq_some_iff.mp h
  obtain ⟨prefixPatterns, hPrefixPatterns, h⟩ := Option.bind_eq_some_iff.mp h
  obtain ⟨priority, hPriority, h⟩ := Option.bind_eq_some_iff.mp h
  obtain ⟨weight, hWeight, h⟩ := Option.bind_eq_some_iff.mp h
  obtain ⟨costPerMinute, hCostPerMinute, h⟩ := Option.bind_eq_some_iff.mp h
  obtain ⟨numberFormat, hNumberFormat, h⟩ := Option.bind_eq_some_iff.mp h
  obtain ⟨countryCode, hCountryCode, h⟩ := Option.bind_eq_some_iff.mp h
  obtain ⟨nationalPrefix, hNationalPrefix, h⟩ := Option.bind_eq_some_iff.mp h
  obtain ⟨callerNumberFormat, hCallerNumberFormat, h⟩ := Option.bind_eq_some_iff.mp h
  obtain ⟨callerNumberOverride, hCallerNumberOverride, h⟩ := Option.bind_eq_some_iff.mp h
  obtain ⟨callerDisplayName, hCallerDisplayName, h⟩ := Option.bind_eq_some_iff.mp h
  obtain ⟨allowedCodecs, hAllowedCodecs, h⟩ := Option.bind_eq_some_iff.mp h
  obtain ⟨maxConcurrentCalls, hMaxConcurrentCalls, h⟩ := Option.bind_eq_some_iff.mp h
  obtain ⟨tlsSni, hTlsSni, h⟩ := Option.bind_eq_some_iff.mp h
  obtain ⟨tlsCaCert, hTlsCaCert, h⟩ := Option.bind_eq_some_iff.mp h
  obtain ⟨tlsVerify, hTlsVerify, h⟩ := Option.bind_eq_some_iff.mp h
  obtain ⟨tlsClientCert, hTlsClientCert, h⟩ := Option.bind_eq_some_iff.mp h
  obtain ⟨tlsClientKey, hTlsClientKey, h⟩ := Option.bind_eq_some_iff.mp h
  obtain rfl := Option.some.inj h
  cases f with
  | name => exact asOptional_eq hName
  | enabled => exact asBool_eq hEnabled
  | host => exact asOptional_eq hHost
  | port => exact asUnsigned_eq hPort UInt16.toNat_ofNat_of_lt'
  | transport => exact asString_eq hTransport
  | authRequired => exact asBool_eq hAuthRequired
  | username => exact asOptional_eq hUsername
  | password => exact asOptional_eq hPassword
  | realm => exact asOptional_eq hRealm
  | registerWithTrunk => exact asBool_eq hRegisterWithTrunk
  | registrationInterval => exact asUnsigned_eq hRegistrationInterval UInt64.toNat_ofNat_of_lt'
  | prefixPatterns => exact asStrings_eq hPrefixPatterns
  | priority => exact asUnsigned_eq hPriority UInt32.toNat_ofNat_of_lt'
  | weight => exact asUnsigned_eq hWeight UInt32.toNat_ofNat_of_lt'
  | costPerMinute => exact asUnsigned_eq hCostPerMinute UInt32.toNat_ofNat_of_lt'
  | numberFormat => exact asString_eq hNumberFormat
  | countryCode => exact asOptional_eq hCountryCode
  | nationalPrefix => exact asOptional_eq hNationalPrefix
  | callerNumberFormat => exact asOptional_eq hCallerNumberFormat
  | callerNumberOverride => exact asOptional_eq hCallerNumberOverride
  | callerDisplayName => exact asOptional_eq hCallerDisplayName
  | allowedCodecs => exact asStrings_eq hAllowedCodecs
  | maxConcurrentCalls => exact asUnsigned_eq hMaxConcurrentCalls UInt32.toNat_ofNat_of_lt'
  | tlsSni => exact asOptional_eq hTlsSni
  | tlsCaCert => exact asOptional_eq hTlsCaCert
  | tlsVerify => exact asBool_eq hTlsVerify
  | tlsClientCert => exact asOptional_eq hTlsClientCert
  | tlsClientKey => exact asOptional_eq hTlsClientKey

/-- The number as a column holds it. -/
theorem toInt_ofNat_of_lt (n bits : Nat) (h : n < 2 ^ bits) (hbits : bits ≤ 63) : (Int64.ofNat n).toInt = n :=
  Int64.toInt_ofNat_of_lt (h.trans_le (Nat.pow_le_pow_right Nat.two_pos hbits))

theorem intoRow_cases {body : TrunkBody} {name : List Char} {row : TrunkRow} (h : body.intoRow J V name = .ok row) :
    ∃ host, body.host = some host ∧ toUppercase V body.transport ∈ transports ∧
      row = body.row J name host (toUppercase V body.transport) := by
  rw [TrunkBody.intoRow] at h
  split at h
  · cases h
  · split at h
    · cases h
    next host hhost =>
      split at h
      · cases h
      next htransport =>
        exact ⟨host, (Option.filter_eq_some_iff.mp hhost).1, not_not.mp htransport, (Except.ok.inj h).symm⟩

/-- What a request sends is what is stored. -/
theorem intoRow_json {body : TrunkBody} {name : List Char} {row : TrunkRow} (h : body.intoRow J V name = .ok row)
    (hfits : body.registrationInterval.toNat < 2 ^ 63) {f : Field} (hf : f ≠ .name) :
    trunkBodyJson J row f = stored V f (body.json f) := by
  obtain ⟨host, hhost, _, rfl⟩ := intoRow_cases h
  cases f with
  | name => exact absurd rfl hf
  | host => exact (congrArg optional hhost).symm
  | port => exact congrArg Json.int (toInt_ofNat_of_lt _ 16 body.port.toNat_lt (by decide))
  | registrationInterval =>
      have hcolumn : body.registrationInterval.toInt64 = Int64.ofNat body.registrationInterval.toNat := by
        rw [← UInt64.toInt64_ofNat', UInt64.ofNat_toNat]
      exact congrArg Json.int ((congrArg Int64.toInt hcolumn).trans (Int64.toInt_ofNat_of_lt hfits))
  | priority => exact congrArg Json.int (toInt_ofNat_of_lt _ 32 body.priority.toNat_lt (by decide))
  | weight => exact congrArg Json.int (toInt_ofNat_of_lt _ 32 body.weight.toNat_lt (by decide))
  | costPerMinute => exact congrArg Json.int (toInt_ofNat_of_lt _ 32 body.costPerMinute.toNat_lt (by decide))
  | maxConcurrentCalls => exact congrArg Json.int (toInt_ofNat_of_lt _ 32 body.maxConcurrentCalls.toNat_lt (by decide))
  | prefixPatterns => exact congrArg Json.strs (J.parse_print _)
  | allowedCodecs => exact congrArg Json.strs (J.parse_print _)
  | _ => rfl

theorem toUppercase_of_mem {t : List Char} (h : t ∈ transports) : toUppercase V t = t := by
  simp only [transports, List.mem_cons, List.not_mem_nil, or_false] at h
  rcases h with rfl | rfl | rfl | rfl | rfl <;> rfl

theorem intoRow_transport {body : TrunkBody} {name : List Char} {row : TrunkRow}
    (h : body.intoRow J V name = .ok row) : row.transport ∈ transports := by
  obtain ⟨host, _, htransport, rfl⟩ := intoRow_cases h
  exact htransport

theorem intoRow_name {body : TrunkBody} {name : List Char} {row : TrunkRow} (h : body.intoRow J V name = .ok row) :
    row.name = name := by
  obtain ⟨host, _, _, rfl⟩ := intoRow_cases h
  rfl

theorem patchTrunk_cases {name : List Char} {patch : Option Patch} {existing : Option TrunkRow} {row : TrunkRow}
    (h : patchTrunk J V name patch existing = .ok row) :
    ∃ old p base body, existing = some old ∧ patch = some p ∧
      mergePatch (trunkBodyJson J old) p.entries = .ok base ∧ fromValue base = some body ∧
        body.intoRow J V name = .ok row := by
  cases existing with
  | none => cases h
  | some old =>
      cases patch with
      | none => cases h
      | some p =>
          rw [patchTrunk] at h
          split at h
          · cases h
          next base hbase =>
            split at h
            · cases h
            next body hbody => exact ⟨old, p, base, body, rfl, rfl, hbase, hbody, h⟩

theorem createTrunk_cases {body : TrunkBody} {existing : Option TrunkRow} {row : TrunkRow}
    (h : createTrunk J V body existing = .ok row) : existing = none ∧ ∃ name, body.intoRow J V name = .ok row := by
  rw [createTrunk] at h
  split at h
  · cases h
  next name _ =>
    split at h
    · cases h
    next hnone => exact ⟨Option.not_isSome_iff_eq_none.mp hnone, name, h⟩

end NixiSbc.TrunkApi
