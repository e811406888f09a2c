import NixiSbc.Extensions
import NixiSbc.OutboundInvite

namespace NixiSbc.RequestRewrites

open RawSip TextScan TextFields SipRender SipEdit Topology Extensions OutboundInvite

section Credentials

variable (U : Lowering)

/-- No header carries the credentials of the caller, in the spellings that `header_values` knows. -/
def Stripped (m : RawSipMessage) : Prop :=
  headerValues U m "authorization".toList = [] ∧ headerValues U m "proxy-authorization".toList = []

/-- A line begins with one of the names and the colon, in any case. -/
def Literal (raw : List Char) : Prop :=
  "\nauthorization:".toList <:+: toAsciiLowercase raw ∨ "\nproxy-authorization:".toList <:+: toAsciiLowercase raw

variable {U} {raw : List Char}

theorem strip_of_literal (h : Literal raw) : stripCredentials U raw = render
    (removeHeader U (removeHeader U (message raw) "authorization".toList) "proxy-authorization".toList) := by
  unfold stripCredentials
  dsimp only
  split
  next hno => exact absurd h (not_or.mpr hno)
  next => rw [parse_message]

theorem strip_of_not_literal (h : ¬Literal raw) : stripCredentials U raw = raw := by
  unfold stripCredentials
  dsimp only
  split
  next => rfl
  next hno => exact absurd (not_or.mp h) hno

theorem headerValues_filter {m : RawSipMessage} {name : List Char} :
    headerValues U m name = [] ↔ ∀ h ∈ m.headers, hasName U name h = false := by
  rw [headerValues, List.map_eq_nil_iff, List.filter_eq_nil_iff]
  simp only [Bool.not_eq_true]

theorem stripped_removed (m : RawSipMessage) :
    Stripped U (removeHeader U (removeHeader U m "authorization".toList) "proxy-authorization".toList) := by
  constructor
  · rw [headerValues_filter]
    intro h hh
    simpa using (List.mem_filter.mp (List.mem_of_mem_filter hh)).2
  · rw [headerValues_filter]
    intro h hh
    simpa using (List.mem_filter.mp hh).2

/-- No header of the caller's credentials is left just when a line begins with
one of the names and the colon, or there was none. -/
theorem credentials_stripped_iff (U : Lowering) (raw : List Char) :
    (∃ m, parse (stripCredentials U raw) = .ok m ∧ Stripped U m) ↔
      Literal raw ∨ ∃ m, parse raw = .ok m ∧ Stripped U m := by
  by_cases h : Literal raw
  · refine iff_of_true ?_ (.inl h)
    have hcanonical := parse_canonical (parse_message raw)
    rw [strip_of_literal h]
    exact ⟨_, parse_render (canonical_removeHeader (canonical_removeHeader hcanonical _) _), stripped_removed _⟩
  · rw [strip_of_not_literal h]
    exact ⟨.inr, fun hor => hor.resolve_left h⟩

/-- White space before the colon. -/
theorem spaced_credentials_stay :
    headerValues asciiOnly (message (stripCredentials asciiOnly
      "INVITE sip:b SIP/2.0\r\nAuthorization : Digest a\r\n\r\n".toList)) "authorization".toList =
        ["Digest a".toList] := by
  decide

end Credentials

section Chain

/-- The rewrites on the way of a request. -/
inductive Rewrite
  | stripCredentials
  | stripUntrustedIdentityHeaders
  | stripUnsupportedExtensions
  | hideTopology (nanos : UInt32) (identity : SbcIdentity) (transport : List Char)

variable (U : Lowering) (V : Uppering)

/-- Where the hiding fails, the request goes on as it is. -/
def Rewrite.apply (raw : List Char) : Rewrite → List Char
  | .stripCredentials => OutboundInvite.stripCredentials U raw
  | .stripUntrustedIdentityHeaders => OutboundInvite.stripUntrustedIdentityHeaders U raw
  | .stripUnsupportedExtensions => Extensions.stripUnsupportedExtensions U raw
  | .hideTopology nanos identity transport =>
      match applyTopologyHidingOutbound U V nanos raw identity transport with
      | .ok hidden => hidden
      | .error _ => raw

/-- What is written into the request stays on one line. -/
def Rewrite.OneLine : Rewrite → Prop
  | .hideTopology _ identity transport => Topology.OneLine identity ∧ '\n' ∉ transport
  | _ => True

variable {U} {V}

/-- The text is left alone, or written anew from a message with the same body. -/
def KeepsBody (raw out : List Char) : Prop :=
  out = raw ∨ ∃ m, Canonical m ∧ m.body = (message raw).body ∧ out = render m

theorem KeepsBody.body {raw out : List Char} (h : KeepsBody raw out) : (message out).body = (message raw).body := by
  rcases h with rfl | ⟨m, hm, hbody, rfl⟩
  · rfl
  · have hback := parse_render hm
    rw [parse_message] at hback
    rw [Except.ok.inj hback, hbody]

theorem keepsBody_headers (raw : List Char) {headers : List (List Char)} (h : ∀ l ∈ headers, HeaderLine l) :
    KeepsBody raw (render { message raw with headers := headers }) :=
  .inr ⟨_, (parse_canonical (parse_message raw)).withHeaders h, rfl, rfl⟩

theorem removeHeaders_body (names : List (List Char)) (m : RawSipMessage) :
    (names.foldl (removeHeader U) m).body = m.body := by
  induction names generalizing m with
  | nil => rfl
  | cons name names ih => rw [List.foldl_cons, ih, removeHeader_body]

theorem canonical_removeHeaders (names : List (List Char)) {m : RawSipMessage} (h : Canonical m) :
    Canonical (names.foldl (removeHeader U) m) := by
  induction names generalizing m with
  | nil => exact h
  | cons name names ih => exact ih (canonical_removeHeader h name)

theorem keepsBody_apply (hU : LowersOutside U) (hV : ∀ c, 128 ≤ c.toNat → '\n' ∉ V c) {f : Rewrite} (hf : f.OneLine)
    (raw : List Char) : KeepsBody raw (f.apply U V raw) := by
  have hcanonical := parse_canonical (parse_message raw)
  cases f with
  | stripCredentials =>
      by_cases h : Literal raw
      · refine .inr ⟨_, canonical_removeHeader (canonical_removeHeader hcanonical _) _, ?_, strip_of_literal h⟩
        rw [removeHeader_body, removeHeader_body]
      · exact .inl (strip_of_not_literal h)
  | stripUntrustedIdentityHeaders =>
      rw [Rewrite.apply, OutboundInvite.stripUntrustedIdentityHeaders, parse_message]
      dsimp only
      split
      next => exact .inl rfl
      next => exact .inr ⟨_, canonical_removeHeaders _ hcanonical, removeHeaders_body _ _, rfl⟩
  | stripUnsupportedExtensions =>
      rw [Rewrite.apply]
      rcases strip_cases U raw with ⟨-, hout⟩ | ⟨-, hout⟩ | ⟨-, hout⟩
      · exact .inl hout
      · rw [hout]
        exact keepsBody_headers raw fun l hl => headerLines_message raw l (List.mem_of_mem_filter hl)
      · rw [hout]
        exact keepsBody_headers raw (headerLine_rewritten raw hU (distinct_keptTags _).isTag)
  | hideTopology nanos identity transport =>
      have hbranch : '\n' ∉ newBranch nanos := by
        intro hlf
        cases (newBranch_plain nanos).not_blank hlf
      cases hrequest : isRequest (message raw) with
      | true =>
          have hout : applyTopologyHidingOutbound U V nanos raw identity transport =
              .ok (render (hideRequest U V (newBranch nanos) identity transport (message raw))) := by
            rw [applyTopologyHidingOutbound, parse_message]
            exact if_pos hrequest
          rw [Rewrite.apply, hout]
          exact .inr ⟨_, canonical_hideRequest hcanonical hV hf.1 hf.2 hbranch, hideRequest_body _ _ _ _, rfl⟩
      | false =>
          have hout : applyTopologyHidingOutbound U V nanos raw identity transport = .ok (render (message raw)) := by
            rw [applyTopologyHidingOutbound, parse_message]
            exact if_neg (ne_true_of_eq_false hrequest)
          rw [Rewrite.apply, hout]
          exact .inr ⟨_, hcanonical, rfl, rfl⟩

theorem body_chain (hU : LowersOutside U) (hV : ∀ c, 128 ≤ c.toNat → '\n' ∉ V c) {chain : List Rewrite}
    (h : ∀ f ∈ chain, f.OneLine) (raw : List Char) :
    (message (chain.foldl (Rewrite.apply U V) raw)).body = (message raw).body := by
  induction chain generalizing raw with
  | nil => rfl
  | cons f chain ih =>
      have hfirst := keepsBody_apply hU hV (h f List.mem_cons_self) raw
      rw [List.foldl_cons, ih (fun g hg => h g (List.mem_cons_of_mem f hg)), hfirst.body]

end Chain

/-- A written message is read back, one pass normalises a text, and no chain of
rewrites that write single lines changes the body. -/
theorem render_round_trip (U : Lowering) (V : Uppering) (hU : LowersOutside U) (hV : ∀ c, 128 ≤ c.toNat → '\n' ∉ V c) :
    (∀ m : RawSipMessage, '\r' ∉ m.startLine → '\n' ∉ m.startLine → trim m.startLine = m.startLine →
      (∀ h ∈ m.headers, h ≠ [] ∧ '\r' ∉ h ∧ '\n' ∉ h ∧ isFolded h = false) → parse (render m) = .ok m) ∧
    (∀ raw m, parse raw = .ok m → parse (render m) = parse raw) ∧
    ∀ (chain : List Rewrite) (raw : List Char), (∀ f ∈ chain, f.OneLine) →
      (message (chain.foldl (Rewrite.apply U V) raw)).body = (message raw).body := by
  refine ⟨fun m hcr hlf htrim hheaders => ?_, fun raw m hm => ?_, fun chain raw h => body_chain hU hV h raw⟩
  · apply parse_render
    exact ⟨hcr, hlf, htrim, fun h hh => ⟨(hheaders h hh).1, (hheaders h hh).2.2.1, (hheaders h hh).2.2.2⟩⟩
  · rw [hm]
    exact parse_render (parse_canonical hm)

def sampleChain : List Rewrite :=
  [.stripCredentials, .stripUntrustedIdentityHeaders, .stripUnsupportedExtensions,
    .hideTopology 7 publicIdentity "udp".toList]

theorem render_round_trip_asciiOnly :
    (message (sampleChain.foldl (Rewrite.apply asciiOnly fun c => [c]) insideRequest)).body =
      (message insideRequest).body := by
  have hround := render_round_trip asciiOnly (fun c => [c]) lowersOutside_asciiOnly fun c hc hlf => by
    rw [← List.mem_singleton.mp hlf] at hc
    exact absurd hc (by decide)
  refine hround.2.2 sampleChain insideRequest fun f hf => ?_
  simp only [sampleChain, List.mem_cons, List.not_mem_nil, or_false] at hf
  rcases hf with rfl | rfl | rfl | rfl
  · trivial
  · trivial
  · trivial
  · exact ⟨⟨by decide, by decide⟩, by decide⟩

/-- An empty line in the address ends the headers. -/
theorem hiding_moves_body :
    (message (Rewrite.apply asciiOnly (fun c => [c]) insideRequest
      (.hideTopology 7 { publicIdentity with publicIp := "1\r\n\r\n2".toList } "udp".toList))).body ≠
        (message insideRequest).body := by
  decide

end NixiSbc.RequestRewrites
