import NixiSbc.B2bua
import Mathlib.Data.List.Nodup
import Mathlib.Data.List.Perm.Basic

namespace NixiSbc.CallLookup

open Stun NetAddr Utf8 B2bua

/-- The live calls, in one of the orders in which the map may be iterated. -/
structure CallMap where
  calls : List B2buaCall
  distinct : (calls.map B2buaCall.uuid).Nodup

def outboundIs (call : B2buaCall) (p : List Char → Bool) : Bool :=
  call.outbound.any fun leg => p leg.callId

/-- One of the legs has this Call-ID. -/
def exactMatch (callId : List Char) (call : B2buaCall) : Bool :=
  call.inbound.callId = callId ∨ outboundIs call (· = callId)

/-- The Call-ID of one of the legs ends with this one. -/
def suffixMatch (callId : List Char) (call : B2buaCall) : Bool :=
  callId <:+ call.inbound.callId ∨ outboundIs call fun id => callId <:+ id

/-- Which leg the source address points at: `true` for the caller's. -/
def legOfSource (call : B2buaCall) (src : SocketAddr) : Option Bool :=
  let calleeIp := call.calleeDest.map ip
  let callerIp := ip call.callerSource
  let calleeNear : Bool := calleeIp.any fun a => sameIpv4Subnet24 a (ip src)
  let callerNear := sameIpv4Subnet24 callerIp (ip src)
  if call.calleeDest = some src then some false
  else if call.callerSource = src then some true
  else if calleeIp = some (ip src) ∧ callerIp ≠ ip src then some false
  else if callerIp = ip src ∧ calleeIp ≠ some (ip src) then some true
  else if calleeNear ∧ !callerNear then some false
  else if callerNear ∧ !calleeNear then some true
  else none

/-- The body of the loop: the answer for one call, if there is one. -/
def answerFor (callId : List Char) (source : Option SocketAddr) (call : B2buaCall) :
    Option (List Char × Bool) :=
  let inboundMatches : Bool := call.inbound.callId = callId
  let outboundMatches := outboundIs call (· = callId)
  let inboundSuffix : Bool := !inboundMatches ∧ callId <:+ call.inbound.callId ∧
    call.inbound.callId ≠ callId
  let outboundSuffix : Bool := !outboundMatches ∧
    outboundIs call fun id => callId <:+ id ∧ id ≠ callId
  if !inboundMatches ∧ !outboundMatches ∧ !inboundSuffix ∧ !outboundSuffix then none
  else
    match source.bind (legOfSource call) with
    | some leg => some (call.uuid, leg)
    | none =>
        if inboundMatches ∨ inboundSuffix then some (call.uuid, true)
        else if outboundMatches ∨ outboundSuffix then some (call.uuid, false)
        else none

def findByAnyCallIdWithSource (calls : List B2buaCall) (callId : List Char)
    (source : Option SocketAddr) : Option (List Char × Bool) :=
  calls.findSome? (answerFor callId source)

def minCallIdSuffix : Nat := 8

/-- The call that the log span is taken from. -/
def hitForCallId (calls : List B2buaCall) (callId : List Char) : Option B2buaCall :=
  calls.find? (exactMatch callId) <|>
    if (encode callId).length < minCallIdSuffix then none else calls.find? (suffixMatch callId)

theorem suffixMatch_of_exactMatch {callId : List Char} {call : B2buaCall}
    (h : exactMatch callId call = true) : suffixMatch callId call = true := by
  simp only [exactMatch, suffixMatch, outboundIs, decide_eq_true_eq, Option.any_eq_true] at h ⊢
  rcases h with h | ⟨leg, hleg, h⟩
  · exact .inl (h ▸ List.suffix_rfl)
  · exact .inr ⟨leg, hleg, h ▸ List.suffix_rfl⟩

/-- What the loop tests of a leg comes to its ending with the Call-ID. -/
theorem reads_inbound (callId : List Char) (call : B2buaCall) :
    decide (callId <:+ call.inbound.callId) = (decide (call.inbound.callId = callId) ||
      decide ((!decide (call.inbound.callId = callId)) = true ∧ callId <:+ call.inbound.callId ∧
        call.inbound.callId ≠ callId)) := by
  by_cases h : call.inbound.callId = callId
  · simp [h]
  · simp [h]

theorem reads_outbound (callId : List Char) (call : B2buaCall) :
    outboundIs call (fun id => callId <:+ id) = (outboundIs call (· = callId) ||
      decide ((!outboundIs call (· = callId)) = true ∧
        outboundIs call (fun id => callId <:+ id ∧ id ≠ callId) = true)) := by
  cases hleg : call.outbound with
  | none => simp [outboundIs, hleg]
  | some leg =>
      by_cases h : leg.callId = callId
      · simp [outboundIs, hleg, h]
      · simp [outboundIs, hleg, h]

theorem answerFor_eq (callId : List Char) (source : Option SocketAddr) (call : B2buaCall) :
    answerFor callId source call =
      if suffixMatch callId call then
        some (call.uuid, (source.bind (legOfSource call)).getD (callId <:+ call.inbound.callId))
      else none := by
  have hmatch : suffixMatch callId call = (decide (callId <:+ call.inbound.callId) ||
      outboundIs call (fun id => callId <:+ id)) := by
    rw [suffixMatch, Bool.decide_or, Bool.decide_eq_true]
  rw [hmatch, reads_inbound, reads_outbound, answerFor]
  -- four flags are left, and the leg that the source points at
  generalize decide (call.inbound.callId = callId) = im
  generalize outboundIs call (· = callId) = om
  generalize decide ((!im) = true ∧ callId <:+ call.inbound.callId ∧ call.inbound.callId ≠ callId) = is
  generalize decide ((!om) = true ∧ outboundIs call (fun id => callId <:+ id ∧ id ≠ callId) = true) = os
  cases source.bind (legOfSource call) with
  | some leg => cases im <;> cases om <;> cases is <;> cases os <;> rfl
  | none => cases im <;> cases om <;> cases is <;> cases os <;> rfl

/-- The first call of the order that matches at all is the answer. -/
theorem find_eq_some {calls : List B2buaCall} {callId uuid : List Char} {source : Option SocketAddr}
    {leg : Bool} (h : findByAnyCallIdWithSource calls callId source = some (uuid, leg)) :
    ∃ c ∈ calls, suffixMatch callId c = true ∧ c.uuid = uuid := by
  obtain ⟨c, hc, hans⟩ := List.exists_of_findSome?_eq_some h
  rw [answerFor_eq] at hans
  split at hans
  next hm => exact ⟨c, hc, hm, congrArg Prod.fst (Option.some.inj hans)⟩
  next => cases hans

theorem find_of_mem {calls : List B2buaCall} {callId : List Char} (source : Option SocketAddr)
    {c : B2buaCall} (hc : c ∈ calls) (hm : suffixMatch callId c = true) :
    ∃ uuid leg, findByAnyCallIdWithSource calls callId source = some (uuid, leg) := by
  have hsome : (findByAnyCallIdWithSource calls callId source).isSome := by
    rw [findByAnyCallIdWithSource, List.findSome?_isSome_iff]
    exact ⟨c, hc, by rw [answerFor_eq, if_pos hm]; rfl⟩
  obtain ⟨⟨uuid, leg⟩, h⟩ := Option.isSome_iff_exists.mp hsome
  exact ⟨uuid, leg, h⟩

theorem find_head {c : B2buaCall} (rest : List B2buaCall) {callId : List Char}
    (source : Option SocketAddr) (hm : suffixMatch callId c = true) :
    ∃ leg, findByAnyCallIdWithSource (c :: rest) callId source = some (c.uuid, leg) := by
  rw [findByAnyCallIdWithSource, List.findSome?_cons, answerFor_eq, if_pos hm]
  exact ⟨_, rfl⟩

/-- The leg that alone is near, if one is. -/
def aloneNear (near : IpAddr → Bool) (call : B2buaCall) : Option Bool :=
  match near (ip call.callerSource), (call.calleeDest.map ip).any near with
  | true, false => some true
  | false, true => some false
  | _, _ => none

/-- The leg that a request from an address belongs to: the exact address tells,
else the first of host and network that only one leg shares with the source. -/
structure Attributed (callId : List Char) (src : SocketAddr) (call : B2buaCall) (leg : Bool) : Prop where
  callee : call.calleeDest = some src → leg = false
  caller : call.calleeDest ≠ some src → call.callerSource = src → leg = true
  sameHost : call.calleeDest ≠ some src → call.callerSource ≠ src →
    ∀ l, aloneNear (· = ip src) call = some l → leg = l
  sameNetwork : call.calleeDest ≠ some src → call.callerSource ≠ src → aloneNear (· = ip src) call = none →
    ∀ l, aloneNear (sameIpv4Subnet24 · (ip src)) call = some l → leg = l
  inboundFirst : call.calleeDest ≠ some src → call.callerSource ≠ src → aloneNear (· = ip src) call = none →
    aloneNear (sameIpv4Subnet24 · (ip src)) call = none → leg = decide (callId <:+ call.inbound.callId)

theorem legOfSource_eq {call : B2buaCall} {src : SocketAddr} (hcallee : call.calleeDest ≠ some src)
    (hcaller : call.callerSource ≠ src) :
    legOfSource call src =
      (aloneNear (· = ip src) call <|> aloneNear (sameIpv4Subnet24 · (ip src)) call) := by
  have hany : ((call.calleeDest.map ip).any fun a => decide (a = ip src)) =
      decide (call.calleeDest.map ip = some (ip src)) := by
    cases call.calleeDest.map ip <;> simp
  simp only [legOfSource, if_neg hcallee, if_neg hcaller, aloneNear, hany]
  generalize ((call.calleeDest.map ip).any fun a => sameIpv4Subnet24 a (ip src)) = calleeNear
  generalize sameIpv4Subnet24 (ip call.callerSource) (ip src) = callerNear
  by_cases hcalleeSame : call.calleeDest.map ip = some (ip src)
  · by_cases hcallerSame : ip call.callerSource = ip src
    · cases calleeNear <;> cases callerNear <;> simp [hcalleeSame, hcallerSame]
    · simp [hcalleeSame, hcallerSame]
  · by_cases hcallerSame : ip call.callerSource = ip src
    · simp [hcalleeSame, hcallerSame]
    · cases calleeNear <;> cases callerNear <;> simp [hcalleeSame, hcallerSame]

theorem attributed_legOfSource (callId : List Char) (src : SocketAddr) (call : B2buaCall) :
    Attributed callId src call ((legOfSource call src).getD (callId <:+ call.inbound.callId)) := by
  by_cases hcallee : call.calleeDest = some src
  · have hleg : legOfSource call src = some false := if_pos hcallee
    rw [hleg]
    exact ⟨fun _ => rfl, fun h => absurd hcallee h, fun h => absurd hcallee h, fun h => absurd hcallee h,
      fun h => absurd hcallee h⟩
  by_cases hcaller : call.callerSource = src
  · have hleg : legOfSource call src = some true := by
      rw [legOfSource]
      simp only [if_neg hcallee, if_pos hcaller]
    rw [hleg]
    exact ⟨fun h => absurd h hcallee, fun _ _ => rfl, fun _ h => absurd hcaller h, fun _ h => absurd hcaller h,
      fun _ h => absurd hcaller h⟩
  rw [legOfSource_eq hcallee hcaller]
  refine ⟨fun h => absurd h hcallee, fun _ h => absurd h hcaller, fun _ _ l hl => ?_, fun _ _ hhost l hl => ?_,
    fun _ _ hhost hnetwork => ?_⟩
  · rw [hl]
    rfl
  · rw [hhost, hl]
    rfl
  · rw [hhost, hnetwork]
    rfl

/-- The leg of a request is told by its source address wherever that can tell. -/
theorem leg_by_address (calls : List B2buaCall) (callId : List Char) (src : SocketAddr) :
    (∀ call ∈ calls, suffixMatch callId call = true →
      ∃ leg, answerFor callId (some src) call = some (call.uuid, leg) ∧ Attributed callId src call leg) ∧
    (∀ uuid leg, findByAnyCallIdWithSource calls callId (some src) = some (uuid, leg) →
      ∃ call ∈ calls, suffixMatch callId call = true ∧ call.uuid = uuid ∧ Attributed callId src call leg) ∧
    (findByAnyCallIdWithSource calls callId (some src) = none ↔ ∀ call ∈ calls, suffixMatch callId call = false) := by
  have hanswer (call : B2buaCall) (hm : suffixMatch callId call = true) :
      answerFor callId (some src) call =
        some (call.uuid, (legOfSource call src).getD (callId <:+ call.inbound.callId)) := by
    rw [answerFor_eq, if_pos hm]
    rfl
  refine ⟨fun call _ hm => ⟨_, hanswer call hm, attributed_legOfSource callId src call⟩, fun uuid leg h => ?_, ?_⟩
  · obtain ⟨call, hcall, hans⟩ := List.exists_of_findSome?_eq_some h
    by_cases hm : suffixMatch callId call = true
    · rw [hanswer call hm] at hans
      obtain ⟨rfl, rfl⟩ := Prod.mk.inj (Option.some.inj hans)
      exact ⟨call, hcall, hm, rfl, attributed_legOfSource callId src call⟩
    · rw [answerFor_eq, if_neg hm] at hans
      cases hans
  · rw [findByAnyCallIdWithSource, List.findSome?_eq_none_iff]
    refine forall₂_congr fun call _ => ?_
    by_cases hm : suffixMatch callId call = true
    · simp [hanswer call hm, hm]
    · simp [answerFor_eq, hm]

/-- An exact Call-ID beats a truncated one, and a truncated one counts only
when it is long enough. -/
structure Identified (calls : List B2buaCall) (callId : List Char)
    (result : Option (List Char × Bool)) : Prop where
  exact : (∃ c ∈ calls, exactMatch callId c = true) →
    ∃ c ∈ calls, exactMatch callId c = true ∧ ∃ leg, result = some (c.uuid, leg)
  truncated : (∀ c ∈ calls, exactMatch callId c = false) → ∀ uuid leg, result = some (uuid, leg) →
    minCallIdSuffix ≤ (encode callId).length ∧
      ∃ c ∈ calls, c.uuid = uuid ∧ suffixMatch callId c = true

/-- No call matches only by its ending when one matches exactly, and none does
so to a short Call-ID. -/
def Unambiguous (calls : List B2buaCall) (callId : List Char) : Prop :=
  ∀ c ∈ calls, suffixMatch callId c = true → exactMatch callId c = false →
    (∀ d ∈ calls, exactMatch callId d = false) ∧ minCallIdSuffix ≤ (encode callId).length

theorem exact_callId_first_iff (m : CallMap) (callId : List Char) :
    (∀ order source, order.Perm m.calls →
      Identified order callId (findByAnyCallIdWithSource order callId source)) ↔
      Unambiguous m.calls callId := by
  constructor
  · intro hall c hc hm hno
    -- an order in which the call that only ends with the Call-ID comes first
    have hperm : (c :: m.calls.erase c).Perm m.calls := (List.perm_cons_erase hc).symm
    have hid := hall _ none hperm
    obtain ⟨leg, hfind⟩ := find_head (m.calls.erase c) none hm
    have hnone : ∀ d ∈ m.calls, exactMatch callId d = false := by
      intro d hd
      by_contra hex
      rw [Bool.not_eq_false] at hex
      obtain ⟨e, he, hexact, leg', hres⟩ := hid.exact ⟨d, hperm.mem_iff.mpr hd, hex⟩
      have huuid : c.uuid = e.uuid := by
        rw [hfind] at hres
        exact congrArg Prod.fst (Option.some.inj hres)
      have hce := List.inj_on_of_nodup_map m.distinct hc (hperm.mem_iff.mp he) huuid
      rw [hce, hexact] at hno
      cases hno
    exact ⟨hnone, (hid.truncated (fun d hd => hnone d (hperm.mem_iff.mp hd)) _ _ hfind).1⟩
  · intro hcond order source hperm
    refine ⟨fun ⟨d, hd, hex⟩ => ?_, fun hnone uuid leg hfind => ?_⟩
    · obtain ⟨uuid, leg, hfind⟩ := find_of_mem source hd (suffixMatch_of_exactMatch hex)
      obtain ⟨c, hc, hm, rfl⟩ := find_eq_some hfind
      refine ⟨c, hc, ?_, leg, hfind⟩
      by_contra hno
      rw [Bool.not_eq_true] at hno
      have h := (hcond c (hperm.mem_iff.mp hc) hm hno).1 d (hperm.mem_iff.mp hd)
      rw [h] at hex
      cases hex
    · obtain ⟨c, hc, hm, rfl⟩ := find_eq_some hfind
      exact ⟨(hcond c (hperm.mem_iff.mp hc) hm (hnone c hc)).2, c, hc, rfl, hm⟩

def liveCall (uuid callId : String) : B2buaCall :=
  .new uuid.toList callId.toList "t".toList (NetAddr.ofOctets 192 0 2 1 5060) .udp

/-- Two callers, of whom one's Call-ID ends with the other's. -/
def twoCalls : List B2buaCall := [liveCall "u1" "36f34d8-57191931@h", liveCall "u2" "57191931@h"]

/-- The call whose Call-ID only ends with the one of the request is returned
for it, and so it is for an empty one. -/
theorem truncated_callId_first :
    exactMatch "57191931@h".toList (liveCall "u2" "57191931@h") = true ∧
    exactMatch "57191931@h".toList (liveCall "u1" "36f34d8-57191931@h") = false ∧
    findByAnyCallIdWithSource twoCalls "57191931@h".toList none = some ("u1".toList, true) ∧
    findByAnyCallIdWithSource twoCalls [] none = some ("u1".toList, true) := by
  decide

/-- The lookup for the log, in contrast, is right for every map and order. -/
theorem hitForCallId_identified (calls : List B2buaCall) (callId : List Char) (leg : Bool) :
    Identified calls callId ((hitForCallId calls callId).map fun c => (c.uuid, leg)) := by
  cases hfind : calls.find? (exactMatch callId) with
  | some c =>
      have hc := List.mem_of_find?_eq_some hfind
      have hexact := List.find?_some hfind
      rw [hitForCallId, hfind]
      exact ⟨fun _ => ⟨c, hc, hexact, leg, rfl⟩,
        fun hnone => absurd hexact (by rw [hnone c hc]; decide)⟩
  | none =>
      rw [List.find?_eq_none] at hfind
      refine ⟨fun ⟨c, hc, hexact⟩ => absurd hexact (hfind c hc), fun _ uuid leg' hres => ?_⟩
      obtain ⟨c, hhit, hpair⟩ := Option.map_eq_some_iff.mp hres
      rw [hitForCallId, List.find?_eq_none.mpr hfind] at hhit
      change (if _ then none else _) = some c at hhit
      split at hhit
      next => cases hhit
      next hlong =>
        exact ⟨Nat.le_of_not_lt hlong, c, List.mem_of_find?_eq_some hhit,
          congrArg Prod.fst hpair, List.find?_some hhit⟩

end NixiSbc.CallLookup
