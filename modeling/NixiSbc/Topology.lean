import NixiSbc.SipEdit

namespace NixiSbc.Topology

open Diagnostics RawSip TextScan TextFields TextLines SipRender SipEdit

/-- The public-facing identity for topology hiding. -/
structure SbcIdentity where
  publicIp : List Char
  sipDomain : List Char
  sipPort : UInt16
  tls : Bool

namespace SbcIdentity

variable (identity : SbcIdentity)

def scheme : List Char := if identity.tls then "sips".toList else "sip".toList

def sipUri : List Char :=
  if identity.sipPort = 5060 ∧ ¬ identity.tls then identity.scheme ++ ':' :: identity.sipDomain
  else identity.scheme ++ ':' :: identity.sipDomain ++ ':' :: showNat identity.sipPort.toNat

def contactUri : List Char :=
  identity.scheme ++ ":sbc@".toList ++ identity.publicIp ++ ':' :: showNat identity.sipPort.toNat ++
    if identity.tls then ";transport=tls".toList else []

def viaHeader (V : Uppering) (transport branch : List Char) : List Char :=
  "SIP/2.0/".toList ++ toUppercase V transport ++ ' ' :: identity.publicIp ++
    ':' :: showNat identity.sipPort.toNat ++ ";branch=".toList ++ branch

def recordRoute : List Char :=
  '<' :: identity.sipUri ++ (if identity.tls then ";transport=tls;lr>".toList else ";lr>".toList)

end SbcIdentity

/-- The branch is drawn from the nanoseconds of the clock. -/
def newBranch (nanos : UInt32) : List Char := "z9hG4bK".toList ++ (paddedHex 8 nanos.toNat).toList

section

variable (U : Lowering) (V : Uppering)

/-- What the hiding does to a request. A request without a hop left is passed
on as it is, so the error is dropped. -/
def hideRequest (branch : List Char) (identity : SbcIdentity) (transport : List Char)
    (m : RawSipMessage) : RawSipMessage :=
  let m := (decrementMaxForwards U m).2
  let m := removeHeader U m "via".toList
  let m := prependHeader m ("Via: ".toList ++ identity.viaHeader V transport branch)
  let m := removeHeader U m "contact".toList
  let m := removeHeader U m "m".toList
  let m := appendHeader m ("Contact: ".toList ++ ('<' :: identity.contactUri ++ ['>']))
  let m := removeHeader U m "record-route".toList
  let m := prependHeader m ("Record-Route: ".toList ++ identity.recordRoute)
  removeHeader U m "route".toList

def applyTopologyHidingOutbound (nanos : UInt32) (raw : List Char) (identity : SbcIdentity)
    (transport : List Char) : Except Error (List Char) := do
  let m ← parse raw
  if isRequest m then return render (hideRequest U V (newBranch nanos) identity transport m)
  else return render m

/-- The headers that the hiding rewrites or removes. -/
def rewritten (h : List Char) : Bool :=
  hasName U "via".toList h || hasName U "contact".toList h || hasName U "record-route".toList h ||
    hasName U "route".toList h || hasName U "max-forwards".toList h

end

section Names

variable (U : Lowering) (rest : List Char)

theorem viaLine_names :
    hasName U "via".toList ("Via".toList ++ ':' :: rest) = true ∧
    hasName U "contact".toList ("Via".toList ++ ':' :: rest) = false ∧
    hasName U "m".toList ("Via".toList ++ ':' :: rest) = false ∧
    hasName U "record-route".toList ("Via".toList ++ ':' :: rest) = false ∧
    hasName U "route".toList ("Via".toList ++ ':' :: rest) = false := by
  refine ⟨?_, ?_, ?_, ?_, ?_⟩
  all_goals exact (hasName_append U rest (by decide) (by decide) (by decide)).trans (by decide)

theorem contactLine_names :
    hasName U "via".toList ("Contact".toList ++ ':' :: rest) = false ∧
    hasName U "contact".toList ("Contact".toList ++ ':' :: rest) = true ∧
    hasName U "record-route".toList ("Contact".toList ++ ':' :: rest) = false ∧
    hasName U "route".toList ("Contact".toList ++ ':' :: rest) = false := by
  refine ⟨?_, ?_, ?_, ?_⟩
  all_goals exact (hasName_append U rest (by decide) (by decide) (by decide)).trans (by decide)

theorem recordRouteLine_names :
    hasName U "via".toList ("Record-Route".toList ++ ':' :: rest) = false ∧
    hasName U "contact".toList ("Record-Route".toList ++ ':' :: rest) = false ∧
    hasName U "record-route".toList ("Record-Route".toList ++ ':' :: rest) = true ∧
    hasName U "route".toList ("Record-Route".toList ++ ':' :: rest) = false := by
  refine ⟨?_, ?_, ?_, ?_⟩
  all_goals exact (hasName_append U rest (by decide) (by decide) (by decide)).trans (by decide)

end Names

section

variable {U : Lowering} {V : Uppering}

/-- The headers that pass all the removals. -/
def kept (U : Lowering) (h : List Char) : Bool :=
  !hasName U "route".toList h && (!hasName U "record-route".toList h && (!hasName U "m".toList h &&
    (!hasName U "contact".toList h && !hasName U "via".toList h)))

theorem append_label (text label value : List Char) (h : text = label ++ [':', ' ']) :
    text ++ value = label ++ ':' :: ' ' :: value := by
  rw [h, List.append_assoc]
  rfl

/-- What is left after all removals stands between the new lines. -/
theorem hideRequest_headers (branch : List Char) (identity : SbcIdentity) (transport : List Char)
    (m : RawSipMessage) :
    (hideRequest U V branch identity transport m).headers =
      ("Record-Route".toList ++ ':' :: ' ' :: identity.recordRoute) ::
        ("Via".toList ++ ':' :: ' ' :: identity.viaHeader V transport branch) ::
          ((decrementMaxForwards U m).2.headers.filter (kept U) ++
            ["Contact".toList ++ ':' :: ' ' :: ('<' :: identity.contactUri ++ ['>'])]) := by
  obtain ⟨-, hcontact, hm, hrecord, hroute⟩ :=
    viaLine_names U (' ' :: identity.viaHeader V transport branch)
  obtain ⟨-, -, hrecord', hroute'⟩ :=
    contactLine_names U (' ' :: ('<' :: identity.contactUri ++ ['>']))
  obtain ⟨-, -, -, hroute''⟩ := recordRouteLine_names U (' ' :: identity.recordRoute)
  have hvia := append_label "Via: ".toList "Via".toList (identity.viaHeader V transport branch)
    (by decide)
  have hrr := append_label "Record-Route: ".toList "Record-Route".toList identity.recordRoute (by decide)
  have hco := append_label "Contact: ".toList "Contact".toList ('<' :: identity.contactUri ++ ['>'])
    (by decide)
  simp only [hideRequest, removeHeader, prependHeader, appendHeader, hvia, hrr, hco,
    List.filter_cons, List.filter_append, List.filter_filter, List.filter_nil, hcontact, hm, hrecord,
    hroute, hrecord', hroute', hroute'', Bool.not_false, if_true]
  rfl

/-- Nothing that is kept has a name that was removed. -/
theorem filter_kept {name : List Char} (h : ∀ l, kept U l = true → hasName U name l = false)
    (hs : List (List Char)) : (hs.filter (kept U)).filter (hasName U name) = [] := by
  rw [List.filter_eq_nil_iff]
  intro l hl
  rw [h l (List.mem_filter.mp hl).2]
  decide

theorem kept_names {l : List Char} (h : kept U l = true) :
    hasName U "via".toList l = false ∧ hasName U "contact".toList l = false ∧
    hasName U "record-route".toList l = false ∧ hasName U "route".toList l = false := by
  simp only [kept, Bool.and_eq_true, Bool.not_eq_true'] at h
  obtain ⟨hroute, hrecord, -, hcontact, hvia⟩ := h
  exact ⟨hvia, hcontact, hrecord, hroute⟩

theorem kept_of_not_rewritten {l : List Char} (h : rewritten U l = false) : kept U l = true := by
  simp only [rewritten, Bool.or_eq_false_iff] at h
  obtain ⟨⟨⟨⟨hvia, hcontact⟩, hrecord⟩, hroute⟩, -⟩ := h
  have hm : hasName U "m".toList l = false := by
    cases hcase : hasName U "m".toList l with
    | false => rfl
    | true => rw [hasName_contact_of_compact hcase] at hcontact; exact hcontact
  simp only [kept, hvia, hcontact, hrecord, hroute, hm, Bool.not_false, Bool.and_self]

/-- A text with something in it and no blank. -/
def Plain (text : List Char) : Prop := text ≠ [] ∧ text.any isWhiteSpace = false

theorem Plain.not_blank {text : List Char} (h : Plain text) {c : Char} (hc : c ∈ text) :
    isWhiteSpace c = false :=
  Bool.eq_false_iff.mpr (List.any_eq_false.mp h.2 c hc)

/-- A value is read as it stands when it has no blank at either end. -/
theorem headerValue_written {label : List Char} (first middle last : List Char) (hlabel : ':' ∉ label)
    (hfirst : Plain first) (hlast : Plain last) :
    headerValue (label ++ ':' :: ' ' :: (first ++ middle ++ last)) = first ++ middle ++ last := by
  have hblank (value : List Char) : trim (' ' :: value) = trim value := rfl
  rw [headerValue_append hlabel, hblank]
  apply trim_eq_self
  · intro c hc
    rw [List.append_assoc, List.head?_append_of_ne_nil first hfirst.1] at hc
    exact hfirst.not_blank (List.mem_of_head? hc)
  · intro c hc
    rw [List.getLast?_append_of_ne_nil _ hlast.1] at hc
    exact hlast.not_blank (List.mem_of_getLast? hc)

theorem newBranch_plain (nanos : UInt32) : Plain (newBranch nanos) := by
  have hhex : (paddedHex 8 nanos.toNat).toList =
      List.replicate (8 - (Nat.toDigits 16 nanos.toNat).length) '0' ++ Nat.toDigits 16 nanos.toNat :=
    String.toList_ofList
  have hcookie : Plain "z9hG4bK".toList := ⟨by decide, by decide⟩
  have heq : newBranch nanos = "z9hG4bK".toList ++
      (List.replicate (8 - (Nat.toDigits 16 nanos.toNat).length) '0' ++ Nat.toDigits 16 nanos.toNat) :=
    congrArg ("z9hG4bK".toList ++ ·) hhex
  rw [heq]
  refine ⟨List.append_ne_nil_of_left_ne_nil hcookie.1 _, List.any_eq_false.mpr fun c hc => ?_⟩
  rw [Bool.not_eq_true]
  rcases List.mem_append.mp hc with hc | hc
  · exact hcookie.not_blank hc
  · rcases List.mem_append.mp hc with hc | hc
    · rw [List.eq_of_mem_replicate hc]
      rfl
    · exact not_blank_of_mem_toDigits (by decide) hc

theorem viaHeader_value (identity : SbcIdentity) (transport : List Char) (nanos : UInt32) :
    headerValue ("Via".toList ++ ':' :: ' ' :: identity.viaHeader V transport (newBranch nanos)) =
      identity.viaHeader V transport (newBranch nanos) := by
  have hassoc (a b c d e f : List Char) : a ++ b ++ c ++ d ++ e ++ f = a ++ (b ++ c ++ d ++ e) ++ f := by
    simp only [List.append_assoc]
  obtain ⟨middle, heq⟩ : ∃ middle, identity.viaHeader V transport (newBranch nanos) =
      "SIP/2.0/".toList ++ middle ++ newBranch nanos := ⟨_, hassoc _ _ _ _ _ _⟩
  rw [heq]
  exact headerValue_written "SIP/2.0/".toList middle (newBranch nanos) (by decide) ⟨by decide, by decide⟩
    (newBranch_plain nanos)

/-- A value in angle brackets is read as it stands. -/
theorem angled_value {label : List Char} (hlabel : ':' ∉ label) (uri : List Char) :
    headerValue (label ++ ':' :: ' ' :: ('<' :: uri ++ ['>'])) = '<' :: uri ++ ['>'] :=
  headerValue_written ['<'] uri ['>'] hlabel ⟨by decide, by decide⟩ ⟨by decide, by decide⟩

theorem recordRoute_eq (identity : SbcIdentity) :
    ∃ uri, identity.recordRoute = '<' :: uri ++ ['>'] := by
  have hplain : ";lr>".toList = ";lr".toList ++ ['>'] := by decide
  have htls : ";transport=tls;lr>".toList = ";transport=tls;lr".toList ++ ['>'] := by decide
  rw [SbcIdentity.recordRoute]
  split
  next =>
    rw [htls, ← List.append_assoc]
    exact ⟨_, rfl⟩
  next =>
    rw [hplain, ← List.append_assoc]
    exact ⟨_, rfl⟩

/-- The texts of an identity stay on one line. -/
structure OneLine (identity : SbcIdentity) : Prop where
  publicIp : '\n' ∉ identity.publicIp
  sipDomain : '\n' ∉ identity.sipDomain

theorem not_mem_port (identity : SbcIdentity) : '\n' ∉ ':' :: showNat identity.sipPort.toNat :=
  List.not_mem_cons_of_ne_of_not_mem (by decide) (not_mem_showNat _)

theorem not_mem_scheme (identity : SbcIdentity) : '\n' ∉ identity.scheme := by
  rw [SbcIdentity.scheme]
  split
  next => decide
  next => decide

section OneLine

variable {identity : SbcIdentity} (h : OneLine identity)
include h

theorem OneLine.contactUri : '\n' ∉ identity.contactUri := by
  rw [SbcIdentity.contactUri]
  refine List.not_mem_append (List.not_mem_append (List.not_mem_append
    (List.not_mem_append (not_mem_scheme _) (by decide)) h.publicIp) (not_mem_port _)) ?_
  split
  next => decide
  next => decide

theorem OneLine.sipUri : '\n' ∉ identity.sipUri := by
  have hdomain : '\n' ∉ ':' :: identity.sipDomain :=
    List.not_mem_cons_of_ne_of_not_mem (by decide) h.sipDomain
  rw [SbcIdentity.sipUri]
  split
  next => exact List.not_mem_append (not_mem_scheme _) hdomain
  next => exact List.not_mem_append (List.not_mem_append (not_mem_scheme _) hdomain) (not_mem_port _)

theorem OneLine.recordRoute : '\n' ∉ identity.recordRoute := by
  rw [SbcIdentity.recordRoute]
  refine List.not_mem_append (List.not_mem_cons_of_ne_of_not_mem (by decide) h.sipUri) ?_
  split
  next => decide
  next => decide

theorem OneLine.viaHeader (hV : ∀ c, 128 ≤ c.toNat → '\n' ∉ V c) {transport branch : List Char}
    (htransport : '\n' ∉ transport) (hbranch : '\n' ∉ branch) :
    '\n' ∉ identity.viaHeader V transport branch := by
  have hip : '\n' ∉ ' ' :: identity.publicIp :=
    List.not_mem_cons_of_ne_of_not_mem (by decide) h.publicIp
  have hprotocol : '\n' ∉ "SIP/2.0/".toList := by decide
  have hfront := List.not_mem_append hprotocol (not_mem_toUppercase hV htransport)
  exact List.not_mem_append (List.not_mem_append (List.not_mem_append (List.not_mem_append hfront hip)
    (not_mem_port _)) (by decide)) hbranch

end OneLine

theorem hideRequest_startLine (branch : List Char) (identity : SbcIdentity) (transport : List Char)
    (m : RawSipMessage) : (hideRequest U V branch identity transport m).startLine = m.startLine := by
  simp only [hideRequest, removeHeader_startLine, prependHeader_startLine, appendHeader_startLine,
    decrement_startLine]

theorem hideRequest_body (branch : List Char) (identity : SbcIdentity) (transport : List Char)
    (m : RawSipMessage) : (hideRequest U V branch identity transport m).body = m.body := by
  simp only [hideRequest, removeHeader_body, prependHeader_body, appendHeader_body, decrement_body]

theorem canonical_hideRequest {m : RawSipMessage} (hm : Canonical m) (hV : ∀ c, 128 ≤ c.toNat → '\n' ∉ V c)
    {identity : SbcIdentity} (h : OneLine identity) {transport branch : List Char}
    (htransport : '\n' ∉ transport) (hbranch : '\n' ∉ branch) :
    Canonical (hideRequest U V branch identity transport m) := by
  have hcontact : '\n' ∉ '<' :: identity.contactUri ++ ['>'] :=
    List.not_mem_append (List.not_mem_cons_of_ne_of_not_mem (by decide) h.contactUri) (by decide)
  have hvia := headerLine_append "Via: ".toList (by decide) (by decide) (by decide)
    (h.viaHeader hV htransport hbranch)
  have hcontact := headerLine_append "Contact: ".toList (by decide) (by decide) (by decide)
    hcontact
  have hrecord := headerLine_append "Record-Route: ".toList (by decide) (by decide)
    (by decide) h.recordRoute
  apply canonical_removeHeader
  apply canonical_prependHeader _ hrecord
  apply canonical_removeHeader
  apply canonical_appendHeader _ hcontact
  apply canonical_removeHeader
  apply canonical_removeHeader
  apply canonical_prependHeader _ hvia
  apply canonical_removeHeader
  exact canonical_decrement hm

/-- Of the names that the hiding writes, the parser finds what it wrote. -/
theorem hideRequest_values (nanos : UInt32) (identity : SbcIdentity) (transport : List Char)
    (m : RawSipMessage) :
    headerValues U (hideRequest U V (newBranch nanos) identity transport m) "via".toList =
      [identity.viaHeader V transport (newBranch nanos)] ∧
    headerValues U (hideRequest U V (newBranch nanos) identity transport m) "contact".toList =
      ['<' :: identity.contactUri ++ ['>']] ∧
    headerValues U (hideRequest U V (newBranch nanos) identity transport m) "record-route".toList =
      [identity.recordRoute] ∧
    headerValues U (hideRequest U V (newBranch nanos) identity transport m) "route".toList = [] := by
  obtain ⟨hvv, hvc, -, hvr, hvo⟩ :=
    viaLine_names U (' ' :: identity.viaHeader V transport (newBranch nanos))
  obtain ⟨hcv, hcc, hcr, hco⟩ := contactLine_names U (' ' :: ('<' :: identity.contactUri ++ ['>']))
  obtain ⟨hrv, hrc, hrr, hro⟩ := recordRouteLine_names U (' ' :: identity.recordRoute)
  obtain ⟨uri, huri⟩ := recordRoute_eq identity
  have hrecord : headerValue ("Record-Route".toList ++ ':' :: ' ' :: identity.recordRoute) =
      identity.recordRoute := by
    rw [huri]
    exact angled_value (by decide) uri
  have hcontact : headerValue ("Contact".toList ++ ':' :: ' ' :: ('<' :: identity.contactUri ++ ['>'])) =
      '<' :: identity.contactUri ++ ['>'] := angled_value (by decide) _
  simp only [headerValues, hideRequest_headers, List.filter_cons, List.filter_append, List.filter_nil,
    hvv, hvc, hvr, hvo, hcv, hcc, hcr, hco, hrv, hrc, hrr, hro, if_true, if_false,
    Bool.false_eq_true, filter_kept fun l hl => (kept_names hl).1,
    filter_kept fun l hl => (kept_names hl).2.1, filter_kept fun l hl => (kept_names hl).2.2.1,
    filter_kept fun l hl => (kept_names hl).2.2.2, List.nil_append, List.map_cons, List.map_nil,
    viaHeader_value, hrecord, hcontact, and_self]

theorem maxForwardsLine_rewritten (U : Lowering) (n : UInt32) :
    rewritten U (maxForwardsLine n) = true := by
  have hline : maxForwardsLine n = "Max-Forwards".toList ++ ':' :: ' ' :: showNat n.toNat :=
    append_label "Max-Forwards: ".toList "Max-Forwards".toList (showNat n.toNat) (by decide)
  have hname : hasName U "max-forwards".toList (maxForwardsLine n) = true := by
    rw [hline]
    exact (hasName_append U _ (by decide) (by decide) (by decide)).trans (by decide)
  rw [rewritten, hname, Bool.or_true]

/-- The other lines keep their text and their order. -/
theorem hideRequest_others (branch : List Char) (identity : SbcIdentity) (transport : List Char)
    (m : RawSipMessage) :
    (hideRequest U V branch identity transport m).headers.filter (fun h => !rewritten U h) =
      m.headers.filter fun h => !rewritten U h := by
  have hvia : rewritten U ("Via".toList ++ ':' :: ' ' :: identity.viaHeader V transport branch) = true := by
    simp only [rewritten, (viaLine_names U _).1, Bool.true_or]
  have hcontact : rewritten U ("Contact".toList ++ ':' :: ' ' :: ('<' :: identity.contactUri ++ ['>'])) =
      true := by
    simp only [rewritten, (contactLine_names U _).2.1, Bool.true_or, Bool.or_true]
  have hrecord : rewritten U ("Record-Route".toList ++ ':' :: ' ' :: identity.recordRoute) = true := by
    simp only [rewritten, (recordRouteLine_names U _).2.2.1, Bool.true_or, Bool.or_true]
  have hkept (hs : List (List Char)) :
      (hs.filter (kept U)).filter (fun h => !rewritten U h) = hs.filter fun h => !rewritten U h := by
    rw [List.filter_filter]
    apply List.filter_congr
    intro l _
    cases hl : rewritten U l with
    | false => rw [kept_of_not_rewritten hl, Bool.and_true]
    | true => rfl
  have hold (l : List Char) (hl : isMaxForwards U l = true) : (!rewritten U l) = false := by
    rw [rewritten, maxForwards_of_isMaxForwards hl, Bool.or_true, Bool.not_true]
  have hnew (n : UInt32) : (!rewritten U (maxForwardsLine n)) = false := by
    rw [maxForwardsLine_rewritten, Bool.not_true]
  rw [← filter_decrement hold hnew m]
  simp only [hideRequest_headers, List.filter_cons, List.filter_append, List.filter_nil, hvia, hcontact,
    hrecord, hkept, Bool.not_true, Bool.false_eq_true, if_false, List.append_nil]

end

/-- Whatever a request looks like, the parser finds in what is sent one Via, one
Contact and one Record-Route, all of the identity, no Route, and the other
headers and the body as they came. -/
theorem hiding_leaks_nothing (U : Lowering) (V : Uppering) (hV : ∀ c, 128 ≤ c.toNat → '\n' ∉ V c) (nanos : UInt32)
    (raw : List Char) (identity : SbcIdentity) (transport : List Char) (hidentity : OneLine identity)
    (htransport : '\n' ∉ transport) {m : RawSipMessage} (hm : parse raw = .ok m)
    (hrequest : isRequest m = true) :
    ∃ out hidden, applyTopologyHidingOutbound U V nanos raw identity transport = .ok out ∧
      parse out = .ok hidden ∧
      headerValues U hidden "via".toList = [identity.viaHeader V transport (newBranch nanos)] ∧
      headerValues U hidden "contact".toList = ['<' :: identity.contactUri ++ ['>']] ∧
      headerValues U hidden "record-route".toList = [identity.recordRoute] ∧
      headerValues U hidden "route".toList = [] ∧
      hidden.headers.filter (fun h => !rewritten U h) = m.headers.filter (fun h => !rewritten U h) ∧
      hidden.startLine = m.startLine ∧ hidden.body = m.body := by
  have hbranch : '\n' ∉ newBranch nanos := by
    intro hlf
    cases (newBranch_plain nanos).not_blank hlf
  have hcanonical := canonical_hideRequest (U := U) (parse_canonical hm) hV hidentity htransport hbranch
  have hout : applyTopologyHidingOutbound U V nanos raw identity transport =
      .ok (render (hideRequest U V (newBranch nanos) identity transport m)) := by
    rw [applyTopologyHidingOutbound, hm]
    exact if_pos hrequest
  obtain ⟨hvia, hcontact, hrecord, hroute⟩ := hideRequest_values (U := U) (V := V) nanos identity transport m
  exact ⟨_, _, hout, parse_render hcanonical, hvia, hcontact, hrecord, hroute,
    hideRequest_others _ identity transport m, hideRequest_startLine _ identity transport m,
    hideRequest_body _ identity transport m⟩

def publicIdentity : SbcIdentity where
  publicIp := "203.0.113.1".toList
  sipDomain := "sip.nixi.tel".toList
  sipPort := 5060
  tls := false

/-- Compact, spaced and folded headers that name the inside. -/
def insideRequest : List Char :=
  "INVITE sip:b SIP/2.0\r\n".toList ++ "v : 10.0.0.1\r\n".toList ++
    "ROUTE:\r\n <sip:10.0.0.2>\r\nTo: b\r\n\r\nx".toList

theorem hiding_leaks_nothing_inside :
    ∃ out hidden, applyTopologyHidingOutbound asciiOnly (fun c => [c]) 7 insideRequest
        publicIdentity "udp".toList = .ok out ∧
      parse out = .ok hidden ∧
      headerValues asciiOnly hidden "via".toList =
        [publicIdentity.viaHeader (fun c => [c]) "udp".toList (newBranch 7)] ∧
      headerValues asciiOnly hidden "route".toList = [] ∧ hidden.body = ['x'] := by
  have hkeep : ∀ c : Char, 128 ≤ c.toNat → '\n' ∉ [c] := by
    intro c hc hlf
    rw [← List.mem_singleton.mp hlf] at hc
    exact absurd hc (by decide)
  obtain ⟨out, hidden, hout, hparse, hvia, -, -, hroute, -, -, hbody⟩ :=
    hiding_leaks_nothing asciiOnly (fun c => [c]) hkeep 7 insideRequest publicIdentity "udp".toList
      ⟨by decide, by decide⟩ (by decide) rfl (by decide)
  exact ⟨out, hidden, hout, hparse, hvia, hroute, hbody⟩

/-- A line feed in the address ends the line, and what follows it is a header. -/
theorem hiding_leaks_behind_line_feed :
    ((applyTopologyHidingOutbound asciiOnly (fun c => [c]) 7 insideRequest
      { publicIdentity with publicIp := "1\nRoute: x".toList } "udp".toList).bind parse).toOption.map
        (headerValues asciiOnly · "route".toList) =
      some ["x:5060;branch=z9hG4bK00000007".toList, "x:5060>".toList] := by
  decide +kernel

end NixiSbc.Topology
