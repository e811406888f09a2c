import NixiSbc.B2bua
import NixiSbc.CredentialLines
import NixiSbc.Topology

namespace NixiSbc.OutboundInvite

open RawSip TextScan TextFields TextLines CrlfLines SipRender SipEdit InviteTexts CredentialLines
open Topology (SbcIdentity applyTopologyHidingOutbound hideRequest)
open B2bua (Transport)

section

variable (U : Lowering) (V : Uppering)

/-- The caller's credentials were for the SBC; a request without any is not
written anew. -/
def stripCredentials (raw : List Char) : List Char :=
  let lower := toAsciiLowercase raw
  if ¬ "\nauthorization:".toList <:+: lower ∧ ¬ "\nproxy-authorization:".toList <:+: lower then raw
  else
    match parse raw with
    | .ok m => render (removeHeader U (removeHeader U m "authorization".toList) "proxy-authorization".toList)
    | .error _ => raw

def untrustedIdentityHeaders : List (List Char) :=
  ["p-asserted-identity".toList, "p-preferred-identity".toList, "remote-party-id".toList,
    "p-charging-vector".toList, "x-forwarded-for".toList, "x-real-ip".toList]

def stripUntrustedIdentityHeaders (raw : List Char) : List Char :=
  match parse raw with
  | .ok m =>
      let stripped := untrustedIdentityHeaders.foldl (removeHeader U) m
      if stripped.headers.length = m.headers.length then raw else render stripped
  | .error _ => raw

def outboundTransportName : Transport → List Char
  | .tls => "TLS".toList
  | .tcp => "TCP".toList
  | .wss => "WSS".toList
  | .ws => "WS".toList
  | _ => "UDP".toList

/-- The identity with the port of the transport. -/
def outboundIdentity (base : SbcIdentity) (transport : Transport) : SbcIdentity :=
  let secure : Bool := transport = .tls ∨ transport = .wss
  let port : UInt16 := if secure then 5061 else 5060
  if port ≠ base.sipPort then ⟨base.publicIp, base.sipDomain, port, secure⟩ else base

/-- Without an identity, or when the hiding fails, the request goes on as it is. -/
def hideInvite (identity : Option SbcIdentity) (nanos : UInt32) (transport : Transport) (raw : List Char) :
    List Char :=
  match identity with
  | some base =>
      match applyTopologyHidingOutbound U V nanos raw (outboundIdentity base transport)
          (outboundTransportName transport) with
      | .ok hidden => hidden
      | .error _ => raw
  | none => raw

/-- What `handle_invite` makes of the request before it sends it, from where
the unsupported extensions are out. -/
def outboundInvite (sessionTimer : Option (UInt32 × UInt32)) (identity : Option SbcIdentity)
    (nanos : UInt32) (fromLocal towardTrunk : Bool) (transport : Transport) (raw : List Char) :
    List Char :=
  let raw := stripCredentials U raw
  let raw := if fromLocal then stripUntrustedIdentityHeaders U raw else raw
  let raw := hideInvite U V identity nanos transport raw
  match sessionTimer with
  | some (expires, minSe) => if towardTrunk then setSessionTimerHeaders U raw expires minSe else raw
  | none => raw

end

section Lines

/-- A line but the first stands behind a line feed. -/
theorem infix_of_mem_splitCrlf {raw line : List Char} (h : line ∈ (splitCrlf raw).drop 1) :
    '\n' :: line <:+: raw := by
  induction raw using crlf_induction with
  | nil => exact absurd h List.not_mem_nil
  | crlf rest ih =>
      have hmem : line ∈ splitCrlf rest := h
      rw [splitCrlf_eq rest] at hmem
      rcases List.mem_cons.mp hmem with rfl | htail
      · have hfront : '\n' :: firstLine rest <+: '\n' :: rest :=
          List.cons_prefix_cons.mpr ⟨rfl, firstLine_front rest⟩
        exact hfront.isInfix.trans (List.suffix_cons '\r' ('\n' :: rest)).isInfix
      · refine (ih (List.drop_one ▸ htail)).trans ?_
        exact ((List.suffix_cons '\n' rest).trans (List.suffix_cons '\r' ('\n' :: rest))).isInfix
  | char c rest hc ih =>
      rw [splitCrlf_cons hc, List.drop_one, List.tail_cons, ← List.drop_one] at h
      exact (ih h).trans (List.suffix_cons c rest).isInfix

theorem front_splitInclusive {text piece : List Char} {more : List (List Char)}
    (h : splitInclusive text = piece :: more) : piece <+: text := by
  induction text generalizing piece more with
  | nil => cases h
  | cons c cs ih =>
      rw [splitInclusive] at h
      split at h
      next =>
        cases h
        exact List.cons_prefix_cons.mpr ⟨rfl, List.nil_prefix⟩
      next =>
        split at h
        next =>
          cases h
          exact List.cons_prefix_cons.mpr ⟨rfl, List.nil_prefix⟩
        next first rest hsplit =>
          cases h
          exact List.cons_prefix_cons.mpr ⟨rfl, ih hsplit⟩

theorem infix_of_mem_splitInclusive {text piece : List Char} (h : piece ∈ (splitInclusive text).drop 1) :
    '\n' :: piece <:+: text := by
  induction text with
  | nil => exact absurd h List.not_mem_nil
  | cons c cs ih =>
      rw [splitInclusive] at h
      split at h
      next hc =>
        have hmem : piece ∈ splitInclusive cs := h
        rw [hc]
        cases hsplit : splitInclusive cs with
        | nil => rw [hsplit] at hmem; cases hmem
        | cons first rest =>
            rw [hsplit] at hmem ih
            rcases List.mem_cons.mp hmem with rfl | htail
            · exact (List.cons_prefix_cons.mpr ⟨rfl, front_splitInclusive hsplit⟩).isInfix
            · exact (ih htail).trans (List.suffix_cons '\n' cs).isInfix
      next =>
        split at h
        next => exact absurd h List.not_mem_nil
        next first rest hsplit =>
          rw [hsplit] at ih
          exact (ih h).trans (List.suffix_cons c cs).isInfix

theorem stripLineEnd_front (piece : List Char) : stripLineEnd piece <+: piece := by
  unfold stripLineEnd
  split
  next => exact List.take_prefix _ _
  next =>
    split
    next => exact List.take_prefix _ _
    next => exact List.prefix_rfl

theorem infix_of_mem_lines {text line : List Char} (h : line ∈ (lines text).drop 1) :
    '\n' :: line <:+: text := by
  rw [lines, ← List.map_drop] at h
  obtain ⟨piece, hpiece, rfl⟩ := List.mem_map.mp h
  exact (List.cons_prefix_cons.mpr ⟨rfl, stripLineEnd_front piece⟩).isInfix.trans
    (infix_of_mem_splitInclusive hpiece)

end Lines

section Clean

variable {U : Lowering} {V : Uppering} {raw : List Char}

/-- A message without credentials, also when it is parsed and written anew. -/
structure Clean (raw : List Char) : Prop where
  carries : ∀ line, ¬ Carries raw line
  parsed : ∀ m, parse raw = .ok m → ∀ h ∈ m.headers, isCredential h = false

theorem clean_render {m : RawSipMessage} (hm : Canonical m) (h : ∀ l ∈ m.headers, isCredential l = false) :
    Clean (render m) where
  carries := by
    rintro line ⟨hline, hcred⟩
    rw [headerLines_render hm] at hline
    rw [h line hline] at hcred
    cases hcred
  parsed := by
    intro m' hparse
    rw [parse_render hm] at hparse
    cases hparse
    exact h

/-- A line that goes on behind a space has its credentials before that. -/
theorem credential_of_fold {line more : List Char} (h : isCredential (line ++ ' ' :: more) = true) :
    isCredential line = true := by
  have hwhole : proxyAuthorization <+: toAsciiLowercase line ++ ' ' :: toAsciiLowercase more := by
    have := of_decide_eq_true h
    rwa [toAsciiLowercase, List.map_append] at this
  refine decide_eq_true ?_
  rcases List.prefix_or_prefix_of_prefix hwhole (List.prefix_append _ _) with hfront | ⟨tail, htail⟩
  · exact hfront
  · cases tail with
    | nil => rw [← htail, List.append_nil]
    | cons c cs =>
        rw [← htail, List.prefix_append_right_inj, List.cons_prefix_cons] at hwhole
        have hspace : ' ' ∈ proxyAuthorization := by
          rw [← htail, ← hwhole.1]
          exact List.mem_append_right _ List.mem_cons_self
        exact absurd hspace (by decide)

/-- A header of a parsed message begins with one of its lines. -/
theorem credential_collectHeaders {current : Option (List Char)} {ls : List (List Char)} {h : List Char}
    (hh : h ∈ collectHeaders current ls) (hcred : isCredential h = true) :
    (∃ l ∈ current, isCredential l = true) ∨ ∃ l ∈ ls, isCredential l = true := by
  induction ls generalizing current with
  | nil => exact .inl ⟨h, Option.mem_toList.mp hh, hcred⟩
  | cons l ls ih =>
      rw [collectHeaders] at hh
      split at hh
      next =>
        rcases ih hh with ⟨k, hk, hkcred⟩ | ⟨k, hk, hkcred⟩
        · obtain ⟨header, hheader, rfl⟩ := Option.map_eq_some_iff.mp hk
          exact .inl ⟨header, hheader, credential_of_fold hkcred⟩
        · exact .inr ⟨k, List.mem_cons_of_mem _ hk, hkcred⟩
      next =>
        split at hh
        next =>
          rcases List.mem_append.mp hh with hh | hh
          · exact .inl ⟨h, Option.mem_toList.mp hh, hcred⟩
          · rcases ih hh with ⟨k, hk, -⟩ | ⟨k, hk, hkcred⟩
            · cases hk
            · exact .inr ⟨k, List.mem_cons_of_mem _ hk, hkcred⟩
        next =>
          rcases List.mem_append.mp hh with hh | hh
          · exact .inl ⟨h, Option.mem_toList.mp hh, hcred⟩
          · rcases ih hh with ⟨k, hk, hkcred⟩ | ⟨k, hk, hkcred⟩
            · cases hk
              exact .inr ⟨l, List.mem_cons_self, hkcred⟩
            · exact .inr ⟨k, List.mem_cons_of_mem _ hk, hkcred⟩

/-- Credentials behind a line feed are what the test before the stripping looks for. -/
theorem infix_of_credential {line : List Char} (hline : '\n' :: line <:+: raw)
    (hcred : isCredential line = true) : "\nproxy-authorization:".toList <:+: toAsciiLowercase raw := by
  have hlower : toAsciiLowercase ('\n' :: line) <:+: toAsciiLowercase raw := hline.map _
  have hfront : '\n' :: proxyAuthorization <+: '\n' :: toAsciiLowercase line :=
    List.cons_prefix_cons.mpr ⟨rfl, of_decide_eq_true hcred⟩
  exact hfront.isInfix.trans hlower

theorem splitBody_front (raw : List Char) : (splitBody raw).1 <+: raw := by
  unfold splitBody
  split
  next => exact List.take_prefix _ _
  next =>
    split
    next => exact List.take_prefix _ _
    next => exact List.prefix_rfl

theorem clean_of_absent (h : ¬ "\nproxy-authorization:".toList <:+: toAsciiLowercase raw) : Clean raw where
  carries := by
    rintro line ⟨hline, hcred⟩
    exact h (infix_of_credential (infix_of_mem_splitCrlf (List.takeWhile_subset _ hline)) hcred)
  parsed := by
    intro m hparse header hheader
    rw [parse] at hparse
    cases hparse
    by_contra hcred
    rcases credential_collectHeaders hheader (Bool.eq_true_of_not_eq_false hcred) with
      ⟨l, hl, -⟩ | ⟨l, hl, hlcred⟩
    · cases hl
    · exact h (infix_of_credential ((infix_of_mem_lines hl).trans (splitBody_front raw).isInfix) hlcred)

theorem clean_stripCredentials (raw : List Char) : Clean (stripCredentials U raw) := by
  unfold stripCredentials
  dsimp only
  split
  next h => exact clean_of_absent h.2
  next =>
    split
    next m hparse =>
      refine clean_render (canonical_removeHeader (canonical_removeHeader (parse_canonical hparse) _) _) ?_
      intro l hl
      by_contra hcred
      have hremoved := (List.mem_filter.mp hl).2
      rw [hasName_of_credential (Bool.eq_true_of_not_eq_false hcred)] at hremoved
      cases hremoved
    next hparse => cases hparse

theorem removeHeaders_spec {m : RawSipMessage} (names : List (List Char)) (hm : Canonical m)
    (h : ∀ l ∈ m.headers, isCredential l = false) :
    Canonical (names.foldl (removeHeader U) m) ∧
      ∀ l ∈ (names.foldl (removeHeader U) m).headers, isCredential l = false := by
  induction names generalizing m with
  | nil => exact ⟨hm, h⟩
  | cons name names ih =>
      exact ih (canonical_removeHeader hm name) fun l hl => h l (List.mem_of_mem_filter hl)

theorem clean_stripUntrusted (h : Clean raw) : Clean (stripUntrustedIdentityHeaders U raw) := by
  unfold stripUntrustedIdentityHeaders
  split
  next m hparse =>
    dsimp only
    split
    next => exact h
    next =>
      obtain ⟨hcanonical, hheaders⟩ := removeHeaders_spec (U := U) untrustedIdentityHeaders
        (parse_canonical hparse) (h.parsed m hparse)
      exact clean_render hcanonical hheaders
  next => exact h

theorem toUppercase_transport (transport : Transport) :
    toUppercase V (outboundTransportName transport) = outboundTransportName transport := by
  cases transport with
  | udp => rfl
  | tcp => rfl
  | tls => rfl
  | tlsSctp => rfl
  | sctp => rfl
  | ws => rfl
  | wss => rfl

theorem mem_removed {name l : List Char} {m : RawSipMessage} (h : l ∈ (removeHeader U m name).headers) :
    l ∈ m.headers := List.mem_of_mem_filter h

theorem mem_prepended {line l : List Char} {m : RawSipMessage} (h : l ∈ (prependHeader m line).headers) :
    l = line ∨ l ∈ m.headers := List.mem_cons.mp h

/-- The hiding writes no credentials of its own. -/
theorem mem_hideRequest {branch transport l : List Char} {identity : SbcIdentity} {m : RawSipMessage}
    (h : l ∈ (hideRequest U V branch identity transport m).headers) :
    l ∈ m.headers ∨ isCredential l = false := by
  unfold hideRequest at h
  rcases mem_prepended (mem_removed h) with rfl | h
  · exact .inr (not_credential_of_head (by decide))
  · rcases List.mem_append.mp (mem_removed h) with h | h
    · rcases mem_prepended (mem_removed (mem_removed h)) with rfl | h
      · exact .inr (not_credential_of_head (by decide))
      · rcases mem_decrement (mem_removed h) with h | ⟨n, rfl⟩
        · exact .inl h
        · exact .inr (not_credential_of_head (by decide))
    · rw [List.mem_singleton.mp h]
      exact .inr (not_credential_of_head (by decide))

theorem canonical_hiding {m : RawSipMessage} (hm : Canonical m) {identity : SbcIdentity}
    (h : Topology.OneLine identity) (nanos : UInt32) (transport : Transport) :
    Canonical (hideRequest U V (Topology.newBranch nanos) identity (outboundTransportName transport) m) := by
  have hbranch : '\n' ∉ Topology.newBranch nanos := by
    intro hlf
    cases (Topology.newBranch_plain nanos).not_blank hlf
  have hname : '\n' ∉ outboundTransportName transport := by
    cases transport <;> decide
  -- the name of the transport is within ASCII, so the tables of the upper case do not matter
  have hsame : hideRequest U V (Topology.newBranch nanos) identity (outboundTransportName transport) m =
      hideRequest U (fun _ => []) (Topology.newBranch nanos) identity (outboundTransportName transport) m := by
    unfold hideRequest SbcIdentity.viaHeader
    rw [toUppercase_transport, toUppercase_transport]
  rw [hsame]
  exact Topology.canonical_hideRequest hm (fun _ _ => List.not_mem_nil) h hname hbranch

theorem clean_hiding (h : Clean raw) {identity : SbcIdentity} (hidentity : Topology.OneLine identity)
    (nanos : UInt32) (transport : Transport) {hidden : List Char}
    (hhidden : applyTopologyHidingOutbound U V nanos raw identity (outboundTransportName transport) =
      .ok hidden) : Clean hidden := by
  cases hparse : parse raw with
  | error e => rw [parse] at hparse; cases hparse
  | ok m =>
      rw [applyTopologyHidingOutbound, hparse] at hhidden
      by_cases hrequest : isRequest m = true
      · rw [show hidden = _ from Except.ok.inj (hhidden.symm.trans (if_pos hrequest))]
        refine clean_render (canonical_hiding (parse_canonical hparse) hidentity nanos transport) fun l hl => ?_
        exact (mem_hideRequest hl).elim (h.parsed m hparse l) id
      · rw [show hidden = _ from Except.ok.inj (hhidden.symm.trans (if_neg hrequest))]
        exact clean_render (parse_canonical hparse) (h.parsed m hparse)

theorem clean_setSessionTimer (h : Clean raw) (expires minSe : UInt32) :
    Clean (setSessionTimerHeaders U raw expires minSe) := by
  unfold setSessionTimerHeaders
  split
  next m hparse =>
    refine clean_render (canonical_timer (parse_canonical hparse) expires minSe) fun l hl => ?_
    rcases mem_timer hl with hl | hl
    · exact h.parsed m hparse l hl
    · exact not_credential_timer hl
  next => exact h

theorem outboundIdentity_oneLine {base : SbcIdentity} (h : Topology.OneLine base) (transport : Transport) :
    Topology.OneLine (outboundIdentity base transport) := by
  unfold outboundIdentity
  extract_lets secure port
  split
  next => exact ⟨h.publicIp, h.sipDomain⟩
  next => exact h

theorem clean_hideInvite (h : Clean raw) {identity : Option SbcIdentity}
    (hidentity : ∀ base ∈ identity, Topology.OneLine base) (nanos : UInt32) (transport : Transport) :
    Clean (hideInvite U V identity nanos transport raw) := by
  unfold hideInvite
  split
  next base =>
    split
    next hidden hok =>
      exact clean_hiding h (outboundIdentity_oneLine (hidentity base rfl) transport) nanos transport hok
    next => exact h
  next => exact h

/-- Whatever the caller sent, the first INVITE carries no credentials. -/
theorem clean_outboundInvite (sessionTimer : Option (UInt32 × UInt32)) {identity : Option SbcIdentity}
    (hidentity : ∀ base ∈ identity, Topology.OneLine base) (nanos : UInt32) (fromLocal towardTrunk : Bool)
    (transport : Transport) (raw : List Char) :
    Clean (outboundInvite U V sessionTimer identity nanos fromLocal towardTrunk transport raw) := by
  have hstripped : Clean (if fromLocal then stripUntrustedIdentityHeaders U (stripCredentials U raw)
      else stripCredentials U raw) := by
    split
    next => exact clean_stripUntrusted (clean_stripCredentials raw)
    next => exact clean_stripCredentials raw
  have hhidden := clean_hideInvite (U := U) (V := V) hstripped hidentity nanos transport
  unfold outboundInvite
  dsimp only
  split
  next =>
    split
    next => exact clean_setSessionTimer hhidden _ _
    next => exact hhidden
  next => exact hhidden

end Clean

end NixiSbc.OutboundInvite
