import NixiSbc.Extensions
import NixiSbc.Identity
import NixiSbc.TextSearch

namespace NixiSbc.TransactionKeys

open TextScan TextFields TextLines TextWords TextSearch RawSip
open Identity (Request)
open CredentialLines (colon_of_lower)
open Extensions (toLower_eq_self)

/-- The parameter of a header value, taken from the first place where its name
and a sign stand, in whatever case. -/
def paramOf (value name : List Char) : Option (List Char) :=
  let needle := name ++ ['=']
  match findSub needle (toAsciiLowercase value) with
  | none => none
  | some pos =>
      let rest := value.drop (pos + needle.length)
      match trim (rest.takeWhile fun c => !(c = ';' ∨ c = ',' ∨ c = ' ' ∨ c = '>')) with
      | [] => none
      | v => some v

def key (branch callId fromTag cseq : List Char) : List Char :=
  branch ++ '|' :: (callId ++ '|' :: (fromTag ++ '|' :: cseq))

/-- The value of the first Via among the printed headers. -/
def viaOf (headers : List (List Char × List Char)) : Option (List Char) :=
  headers.findSome? fun h =>
    let line := h.1 ++ ": ".toList ++ h.2
    let lower := toAsciiLowercase line
    if "via:".toList <+: lower then some (trim (line.drop 4))
    else if "v:".toList <+: lower then some (trim (line.drop 2))
    else none

/-- Transaction key of an incoming INVITE. -/
def keyOfRequest (request : Request) : Option (List Char) := do
  let via ← viaOf request.headers
  let branch ← paramOf via "branch".toList
  let callId ← request.header "Call-ID"
  let fromTag := (paramOf (← request.header "From") "tag".toList).getD []
  let cseq ← (words (← request.header "CSeq")).head?
  return key branch callId fromTag cseq

/-- Transaction key and status of an outgoing response, when it answers an INVITE. -/
def keyOfResponse (U : Lowering) (raw : List Char) : Option (List Char × UInt16) :=
  if "SIP/2.0 ".toList <+: raw then do
    let msg ← (parse raw).toOption
    let parts := words (← (headerValues U msg "cseq".toList).head?)
    let cseq ← parts[0]?
    if toAsciiLowercase (← parts[1]?) ≠ toAsciiLowercase "INVITE".toList then none
    else do
      let via ← (headerValues U msg "via".toList).head?
      let branch ← paramOf via "branch".toList
      let callId ← (headerValues U msg "call-id".toList).head?
      let fromTag := ((headerValues U msg "from".toList).head?.bind (paramOf · "tag".toList)).getD []
      let status ← (words raw)[1]?.bind (parseUnsigned 16)
      return (key branch callId fromTag cseq, UInt16.ofNat status)
  else none

section Readers

variable {name value : List Char}

theorem trim_append_blanks (text : List Char) {blank : List Char} (h : ∀ c ∈ blank, isWhiteSpace c = true) :
    trim (text ++ blank) = trim text := by
  by_cases hne : trimStart text = []
  · have hall : ∀ c ∈ text, isWhiteSpace c = true := by simpa [trimStart] using hne
    have hboth : trimStart (text ++ blank) = [] := by
      rw [trimStart, List.dropWhile_eq_nil_iff]
      intro c hc
      rcases List.mem_append.mp hc with hc | hc
      · exact hall c hc
      · exact h c hc
    rw [trim, trim, hboth, hne]
  · exact trim_append_blank hne h

/-- What ends a parameter. -/
def endsParam (c : Char) : Bool := c = ';' ∨ c = ',' ∨ c = ' ' ∨ c = '>'

theorem paramOf_some {pos : Nat} (h : findSub (name ++ ['=']) (toAsciiLowercase value) = some pos) :
    paramOf value name =
      match trim ((value.drop (pos + (name ++ ['=']).length)).takeWhile fun c => !endsParam c) with
      | [] => none
      | v => some v := by
  rw [paramOf]
  dsimp only
  rw [h]
  rfl

theorem paramOf_none (h : findSub (name ++ ['=']) (toAsciiLowercase value) = none) : paramOf value name = none := by
  rw [paramOf]
  dsimp only
  rw [h]

theorem trim_takeWhile_blanks (text : List Char) {blank : List Char} (h : ∀ c ∈ blank, isWhiteSpace c = true)
    (p : Char → Bool) : trim ((text ++ blank).takeWhile p) = trim (text.takeWhile p) := by
  rw [List.takeWhile_append]
  split
  next hall =>
    rw [(List.takeWhile_prefix p).eq_of_length hall]
    exact trim_append_blanks text fun c hc => h c ((List.takeWhile_prefix p).subset hc)
  next => rfl

/-- A name has no blanks in it. -/
def IsName (name : List Char) : Prop := ∀ c ∈ name ++ ['='], isWhiteSpace c = false

theorem isName_of_all (h : (name ++ ['=']).all (!isWhiteSpace ·) = true) : IsName name := fun c hc => by
  simpa using List.all_eq_true.mp h c hc

theorem isName_branch : IsName "branch".toList := isName_of_all (by decide)

theorem isName_tag : IsName "tag".toList := isName_of_all (by decide)

theorem blank_not_mem (h : IsName name) {blank : List Char} (hblank : ∀ c ∈ blank, isWhiteSpace c = true) :
    ∀ x ∈ toAsciiLowercase blank, x ∉ name ++ ['='] := by
  intro x hx hmem
  obtain ⟨c, hc, rfl⟩ := List.mem_map.mp hx
  rw [toLower_eq_self (.inl (hblank c hc))] at hmem
  cases (hblank c hc).symm.trans (h c hmem)

/-- The blanks around a value do not matter to its parameters. -/
theorem paramOf_trim (h : IsName name) (value : List Char) : paramOf (trim value) name = paramOf value name := by
  obtain ⟨front, back, hfront, hback, hparts⟩ := trim_parts value
  have hne : name ++ ['='] ≠ [] := List.append_ne_nil_of_right_ne_nil _ (List.cons_ne_nil _ _)
  have hfind : findSub (name ++ ['=']) (toAsciiLowercase value) =
      (findSub (name ++ ['=']) (toAsciiLowercase (trim value))).map (· + front.length) := by
    have hlower : toAsciiLowercase value =
        toAsciiLowercase front ++ (toAsciiLowercase (trim value) ++ toAsciiLowercase back) := by
      nth_rewrite 1 [hparts]
      rw [toAsciiLowercase, List.map_append, List.map_append]
      rfl
    rw [hlower, findSub_front hne (blank_not_mem h hfront), findSub_back hne _ (blank_not_mem h hback),
      toAsciiLowercase, toAsciiLowercase, List.length_map]
  cases hpos : findSub (name ++ ['=']) (toAsciiLowercase (trim value)) with
  | none =>
      rw [hpos] at hfind
      rw [paramOf_none hpos, paramOf_none hfind]
  | some pos =>
      rw [hpos] at hfind
      have hfits := findSub_fits hpos
      have hdrop : value.drop (pos + front.length + (name ++ ['=']).length) =
          (trim value).drop (pos + (name ++ ['=']).length) ++ back := by
        rw [toAsciiLowercase, List.length_map] at hfits
        rw [Nat.add_right_comm, Nat.add_comm _ front.length]
        nth_rewrite 1 [hparts]
        rw [List.drop_length_add_append, List.drop_append_of_le_length hfits]
      rw [paramOf_some hpos, paramOf_some hfind, hdrop, trim_takeWhile_blanks _ hback]

end Readers

section Responses

variable {U : Lowering}

/-- The header values that identify an INVITE. -/
structure Values where
  via : List Char
  callId : List Char
  fromValue : List Char
  cseq : List Char

/-- A request with these values, its headers named by tokens. -/
structure Has (request : Request) (v : Values) : Prop where
  names : ∀ h ∈ request.headers, ':' ∉ h.1
  via : (request.headers.find? fun h =>
    toAsciiLowercase h.1 = "via".toList ∨ toAsciiLowercase h.1 = "v".toList).map (trim ·.2) = some v.via
  callId : request.header "Call-ID" = some v.callId
  fromValue : request.header "From" = some v.fromValue
  cseq : request.header "CSeq" = some v.cseq

/-- A response with the same values; the parser of responses trims them. -/
structure Answers (U : Lowering) (raw : List Char) (v : Values) : Prop where
  start : "SIP/2.0 ".toList <+: raw
  status : ((words raw)[1]?.bind (parseUnsigned 16)).isSome = true
  headers : ∃ msg, parse raw = .ok msg ∧
    (headerValues U msg "via".toList).head? = some v.via ∧
    (headerValues U msg "call-id".toList).head? = some (trim v.callId) ∧
    (headerValues U msg "from".toList).head? = some (trim v.fromValue) ∧
    (headerValues U msg "cseq".toList).head? = some (trim v.cseq)

theorem colon_lower {name : List Char} (h : ':' ∉ name) : ':' ∉ toAsciiLowercase name := by
  intro hmem
  obtain ⟨c, hc, hlower⟩ := List.mem_map.mp hmem
  exact h (colon_of_lower hlower ▸ hc)

/-- A line begins with a label when that is its name. -/
theorem prefix_label {label name rest : List Char} (hlabel : ':' ∉ label) (hname : ':' ∉ name) :
    label ++ [':'] <+: toAsciiLowercase (name ++ ':' :: rest) ↔ toAsciiLowercase name = label := by
  have hlower : toAsciiLowercase (name ++ ':' :: rest) = toAsciiLowercase name ++ ':' :: toAsciiLowercase rest := by
    rw [toAsciiLowercase, List.map_append]
    rfl
  rw [hlower]
  constructor
  · rintro ⟨more, hmore⟩
    have hsplit := splitOnce_append hlabel more
    rw [List.append_assoc, List.singleton_append] at hmore
    rw [hmore, splitOnce_append (colon_lower hname)] at hsplit
    exact (Prod.mk.inj (Option.some.inj hsplit)).1
  · rintro rfl
    exact ⟨toAsciiLowercase rest, by rw [List.append_assoc]; rfl⟩

/-- The first Via is found by its name, long or compact. -/
theorem viaOf_eq {headers : List (List Char × List Char)} (h : ∀ h ∈ headers, ':' ∉ h.1) :
    viaOf headers = (headers.find? fun h =>
      toAsciiLowercase h.1 = "via".toList ∨ toAsciiLowercase h.1 = "v".toList).map (trim ·.2) := by
  induction headers with
  | nil => rfl
  | cons first rest ih =>
      obtain ⟨name, value⟩ := first
      have hname : ':' ∉ name := h (name, value) List.mem_cons_self
      have hrest := ih fun x hx => h x (List.mem_cons_of_mem _ hx)
      have hline : name ++ ": ".toList ++ value = name ++ ':' :: ' ' :: value := by rw [List.append_assoc]; rfl
      have hnoLong : ':' ∉ "via".toList := by decide
      have hnoShort : ':' ∉ "v".toList := by decide
      have hvia : "via:".toList <+: toAsciiLowercase (name ++ ':' :: ' ' :: value) ↔
          toAsciiLowercase name = "via".toList := prefix_label hnoLong hname
      have hcompact : "v:".toList <+: toAsciiLowercase (name ++ ':' :: ' ' :: value) ↔
          toAsciiLowercase name = "v".toList := prefix_label hnoShort hname
      have hdrop {label : List Char} (hlabel : toAsciiLowercase name = label) :
          trim ((name ++ ':' :: ' ' :: value).drop (label.length + 1)) = trim value := by
        have hlen : (name ++ [':']).length = label.length + 1 := by
          rw [List.length_append, ← hlabel, toAsciiLowercase, List.length_map]
          rfl
        have hparts : name ++ ':' :: ' ' :: value = (name ++ [':']) ++ ' ' :: value := by rw [List.append_assoc]; rfl
        rw [← hlen, hparts, List.drop_left]
        rfl
      rw [viaOf, List.findSome?_cons, List.find?_cons]
      dsimp only
      rw [hline]
      by_cases hlong : toAsciiLowercase name = "via".toList
      · have hnamed : decide (toAsciiLowercase name = "via".toList ∨ toAsciiLowercase name = "v".toList) = true :=
          decide_eq_true (.inl hlong)
        rw [if_pos (hvia.mpr hlong), hnamed]
        exact congrArg some (hdrop hlong)
      · rw [if_neg (hvia.not.mpr hlong)]
        by_cases hshort : toAsciiLowercase name = "v".toList
        · have hnamed : decide (toAsciiLowercase name = "via".toList ∨ toAsciiLowercase name = "v".toList) = true :=
            decide_eq_true (.inr hshort)
          rw [if_pos (hcompact.mpr hshort), hnamed]
          exact congrArg some (hdrop hshort)
        · have hnamed : decide (toAsciiLowercase name = "via".toList ∨ toAsciiLowercase name = "v".toList) = false :=
            decide_eq_false fun h => h.elim hlong hshort
          rw [if_neg (hcompact.not.mpr hshort), hnamed]
          exact hrest

/-- The key is made of what the values are read for. -/
def keyOf (v : Values) : Option (List Char) := do
  let branch ← paramOf v.via "branch".toList
  let cseq ← (words v.cseq).head?
  return key branch v.callId ((paramOf v.fromValue "tag".toList).getD []) cseq

theorem keyOfRequest_eq {request : Request} {v : Values} (h : Has request v) : keyOfRequest request = keyOf v := by
  rw [keyOfRequest, viaOf_eq h.names, h.via, h.callId, h.fromValue, h.cseq]
  rfl

/-- A response has the key of an INVITE when its CSeq names that method, with the Call-ID trimmed. -/
theorem keyOfResponse_eq {raw : List Char} {v : Values} (h : Answers U raw v) :
    (keyOfResponse U raw).map (·.1) =
      if ((words v.cseq)[1]?.map toAsciiLowercase) = some "invite".toList then keyOf { v with callId := trim v.callId }
      else none := by
  obtain ⟨msg, hparse, hvia, hcallId, hfrom, hcseq⟩ := h.headers
  obtain ⟨status, hstatus⟩ := Option.isSome_iff_exists.mp h.status
  have hinvite : toAsciiLowercase "INVITE".toList = "invite".toList := rfl
  rw [keyOfResponse, if_pos h.start, hparse, keyOf]
  simp only [Except.toOption, Option.bind_eq_bind, Option.bind_some, hvia, hcallId, hfrom, hcseq, hstatus, words_trim,
    paramOf_trim isName_tag, hinvite]
  cases hwords : words v.cseq with
  | nil => rfl
  | cons number rest =>
      cases rest with
      | nil => rfl
      | cons method rest =>
          simp only [List.getElem?_cons_zero, List.getElem?_cons_succ, Option.bind_some, Option.map_some, List.head?_cons,
            Option.some.injEq, ite_not]
          split
          next => cases paramOf v.via "branch".toList <;> rfl
          next => rfl

/-- The response keeps the Call-ID as it was and names the method; or the INVITE has no key at all. -/
def Echoed (v : Values) : Prop :=
  (trim v.callId = v.callId ∧ (words v.cseq)[1]?.map toAsciiLowercase = some "invite".toList) ∨
    paramOf v.via "branch".toList = none ∨ words v.cseq = []

theorem keyOf_eq_none {v : Values} : keyOf v = none ↔ paramOf v.via "branch".toList = none ∨ words v.cseq = [] := by
  unfold keyOf
  cases paramOf v.via "branch".toList with
  | none => simp
  | some branch => cases words v.cseq <;> simp

theorem key_callId_inj {branch tag cseq callId callId' : List Char}
    (h : key branch callId tag cseq = key branch callId' tag cseq) : callId = callId' := by
  rw [key, key] at h
  exact List.append_cancel_right (List.cons.inj (List.append_cancel_left h)).2

/-- A response is remembered under the key that a retransmission of its INVITE is looked up by. -/
theorem keys_agree_iff {raw : List Char} {request : Request} {v : Values} (hrequest : Has request v)
    (hanswers : Answers U raw v) : (keyOfResponse U raw).map (·.1) = keyOfRequest request ↔ Echoed v := by
  rw [keyOfRequest_eq hrequest, keyOfResponse_eq hanswers, Echoed, ← keyOf_eq_none]
  cases hkey : keyOf v with
  | none =>
      have hmissing := keyOf_eq_none.mp hkey
      have htrim : keyOf { v with callId := trim v.callId } = none := keyOf_eq_none.mpr hmissing
      rw [htrim, ite_self]
      exact iff_of_true rfl (.inr rfl)
  | some k =>
      obtain ⟨branch, hbranch, number, hnumber, rfl⟩ : ∃ branch, paramOf v.via "branch".toList = some branch ∧
          ∃ number, (words v.cseq).head? = some number ∧
            key branch v.callId ((paramOf v.fromValue "tag".toList).getD []) number = k := by
        obtain ⟨branch, hbranch, hrest⟩ := Option.bind_eq_some_iff.mp hkey
        obtain ⟨number, hnumber, hsome⟩ := Option.bind_eq_some_iff.mp hrest
        exact ⟨branch, hbranch, number, hnumber, Option.some.inj hsome⟩
      have htrim : keyOf { v with callId := trim v.callId } =
          some (key branch (trim v.callId) ((paramOf v.fromValue "tag".toList).getD []) number) := by
        rw [keyOf, hbranch, hnumber]
        rfl
      split
      next hmethod =>
        rw [htrim, Option.some.injEq]
        refine ⟨fun h => .inl ⟨key_callId_inj h, hmethod⟩, ?_⟩
        rintro (⟨hsame, -⟩ | hnone)
        · rw [hsame]
        · cases hnone
      next hmethod =>
        refine iff_of_false nofun ?_
        rintro (⟨-, hinvite⟩ | hnone)
        · exact hmethod hinvite
        · cases hnone

end Responses

section Pairs

/-- A header value around one of its parameters. -/
structure Marked where
  front : List Char
  label : List Char
  value : List Char
  tail : List Char

def Marked.text (p : Marked) : List Char := p.front ++ (p.label ++ (p.value ++ p.tail))

/-- The label is the name and the sign in any case, and the value ends where a parameter does. -/
structure Marked.Proper (name : List Char) (p : Marked) : Prop where
  label : toAsciiLowercase (p.label.filter (!isWhiteSpace ·)) = name ++ ['=']
  ne_nil : p.value ≠ []
  plain : ∀ c ∈ p.value, endsParam c = false ∧ isWhiteSpace c = false
  tail : ∀ c, (trimStart p.tail).head? = some c → c = ';' ∨ c = ','

/-- Nothing before the parameter looks like it, and its sign has no blanks around it. -/
structure Marked.Plain (name : List Char) (p : Marked) : Prop where
  close : p.label.length = (name ++ ['=']).length
  first : findSub (name ++ ['=']) (toAsciiLowercase p.text) = some p.front.length

theorem blank_of_tail {tail : List Char} (h : ∀ c, (trimStart tail).head? = some c → c = ';' ∨ c = ',') {c : Char}
    (hc : c ∈ tail.takeWhile fun c => !endsParam c) : isWhiteSpace c = true := by
  have hparts : tail = tail.takeWhile isWhiteSpace ++ trimStart tail := List.takeWhile_append_dropWhile.symm
  have hstop : (trimStart tail).takeWhile (fun c => !endsParam c) = [] := by
    cases hstart : trimStart tail with
    | nil => rfl
    | cons d rest =>
        have hends : endsParam d = true := by
          rcases h d (by rw [hstart]; rfl) with rfl | rfl
          · decide
          · decide
        exact List.takeWhile_cons_of_neg (by simp [hends])
  rw [hparts, List.takeWhile_append, hstop, List.append_nil] at hc
  split at hc
  next => exact List.mem_takeWhile_imp hc
  next => exact List.mem_takeWhile_imp ((List.takeWhile_prefix _).subset hc)

theorem paramOf_marked {name : List Char} {p : Marked} (hproper : p.Proper name) (hplain : p.Plain name) :
    paramOf p.text name = some p.value := by
  have hdrop : p.text.drop (p.front.length + (name ++ ['=']).length) = p.value ++ p.tail := by
    rw [← hplain.close, Marked.text, List.drop_length_add_append, List.drop_left]
  have hword : trim ((p.value ++ p.tail).takeWhile fun c => !endsParam c) = p.value := by
    rw [List.takeWhile_append_of_pos fun c hc => by simp [(hproper.plain c hc).1], trim_append_blanks]
    · exact trim_of_isWord ⟨hproper.ne_nil, fun c hc => (hproper.plain c hc).2⟩
    · exact fun c hc => blank_of_tail hproper.tail hc
  rw [paramOf_some hplain.first, hdrop, hword]
  cases hvalue : p.value with
  | nil => exact absurd hvalue hproper.ne_nil
  | cons => rfl

/-- A From header, with its tag if it has one. -/
inductive FromText
  | tagged (p : Marked)
  | untagged (text : List Char)

def FromText.text : FromText → List Char
  | .tagged p => p.text
  | .untagged text => text

def FromText.tag : FromText → Option (List Char)
  | .tagged p => some p.value
  | .untagged _ => none

/-- An INVITE by the headers that identify it. -/
structure Invite where
  via : Marked
  callId : List Char
  fromText : FromText
  cseq : List Char

def Invite.values (i : Invite) : Values := ⟨i.via.text, i.callId, i.fromText.text, i.cseq⟩

/-- What identifies the transaction. -/
structure Parts where
  branch : List Char
  callId : List Char
  tag : Option (List Char)
  cseqNumber : Option (List Char)
  deriving DecidableEq

def Invite.parts (i : Invite) : Parts := ⟨i.via.value, i.callId, i.fromText.tag, (words i.cseq).head?⟩

/-- The parameters are ones, and nothing before them looks like them. -/
structure ReadsRight (i : Invite) : Prop where
  branch : i.via.Proper "branch".toList ∧ i.via.Plain "branch".toList
  tag : match i.fromText with
    | .tagged p => p.Proper "tag".toList ∧ p.Plain "tag".toList
    | .untagged text => findSub "tag=".toList (toAsciiLowercase text) = none

theorem paramOf_fromText {i : Invite} (h : ReadsRight i) : paramOf i.fromText.text "tag".toList = i.fromText.tag := by
  have htag := h.tag
  cases hfrom : i.fromText with
  | tagged p =>
      rw [hfrom] at htag
      exact paramOf_marked htag.1 htag.2
  | untagged text =>
      rw [hfrom] at htag
      exact paramOf_none htag

theorem keyOf_values {i : Invite} (h : ReadsRight i) :
    keyOf i.values = (words i.cseq).head?.map fun number => key i.via.value i.callId (i.fromText.tag.getD []) number := by
  have hbranch : paramOf i.values.via "branch".toList = some i.via.value := paramOf_marked h.branch.1 h.branch.2
  have htag : paramOf i.values.fromValue "tag".toList = i.fromText.tag := paramOf_fromText h
  rw [keyOf, hbranch, htag]
  cases hnumber : (words i.cseq).head? with
  | none => simp [Invite.values, hnumber]
  | some number => simp [Invite.values, hnumber]

/-- As many signs of division in the parts before the last. -/
def SameBars (p q : Parts) : Prop :=
  p.branch.count '|' = q.branch.count '|' ∧ p.callId.count '|' = q.callId.count '|' ∧
    (p.tag.getD []).count '|' = (q.tag.getD []).count '|'

/-- A part is cut off the rest at its own number of signs. -/
theorem append_bar_inj {a b r s : List Char} (hcount : a.count '|' = b.count '|') (h : a ++ '|' :: r = b ++ '|' :: s) :
    a = b ∧ r = s := by
  induction a generalizing b with
  | nil =>
      cases b with
      | nil => exact ⟨rfl, (List.cons.inj h).2⟩
      | cons c b =>
          obtain ⟨rfl, -⟩ := List.cons.inj h
          rw [List.count_cons_self] at hcount
          cases hcount
  | cons c a ih =>
      cases b with
      | nil =>
          obtain ⟨rfl, -⟩ := List.cons.inj h
          rw [List.count_cons_self] at hcount
          cases hcount
      | cons d b =>
          obtain ⟨rfl, hrest⟩ := List.cons.inj h
          rw [List.count_cons, List.count_cons, Nat.add_right_cancel_iff] at hcount
          obtain ⟨rfl, rfl⟩ := ih hcount hrest
          exact ⟨rfl, rfl⟩

theorem tag_inj {i j : Invite} (hi : ReadsRight i) (hj : ReadsRight j)
    (h : i.fromText.tag.getD [] = j.fromText.tag.getD []) : i.fromText.tag = j.fromText.tag := by
  have hne {k : Invite} (hk : ReadsRight k) : k.fromText.tag ≠ some [] := by
    have htag := hk.tag
    cases hfrom : k.fromText with
    | tagged p =>
        rw [hfrom] at htag
        exact fun he => htag.1.ne_nil (Option.some.inj he)
    | untagged text => exact nofun
  have hi' := hne hi
  have hj' := hne hj
  cases htag : i.fromText.tag with
  | none =>
      cases htag' : j.fromText.tag with
      | none => rfl
      | some t =>
          rw [htag, htag'] at h
          exact absurd (htag'.trans (congrArg some h.symm)) hj'
  | some t =>
      cases htag' : j.fromText.tag with
      | none =>
          rw [htag, htag'] at h
          exact absurd (htag.trans (congrArg some h)) hi'
      | some t' =>
          rw [htag, htag'] at h
          exact congrArg some h

theorem parts_of_sameBars {i j : Invite} (hi : ReadsRight i) (hj : ReadsRight j) {k : List Char}
    (hki : keyOf i.values = some k) (hkj : keyOf j.values = some k) (hbars : SameBars i.parts j.parts) :
    i.parts = j.parts := by
  rw [keyOf_values hi] at hki
  rw [keyOf_values hj] at hkj
  obtain ⟨number, hnumber, rfl⟩ := Option.map_eq_some_iff.mp hki
  obtain ⟨number', hnumber', hkey⟩ := Option.map_eq_some_iff.mp hkj
  obtain ⟨hbranch, hrest⟩ := append_bar_inj hbars.1.symm hkey
  obtain ⟨hcallId, hrest⟩ := append_bar_inj hbars.2.1.symm hrest
  obtain ⟨htag, rfl⟩ := append_bar_inj hbars.2.2.symm hrest
  have hvalue : j.via.value = i.via.value := hbranch
  have hsame : j.callId = i.callId := hcallId
  rw [Invite.parts, Invite.parts, hvalue, hsame, tag_inj hj hi htag, hnumber, hnumber']

/-- One key for both requests. -/
def SameKey (request request' : Request) : Prop := ∃ k, keyOfRequest request = some k ∧ keyOfRequest request' = some k

/-- The key of a transaction is the same in its request and its responses when the Call-ID has no blanks at its
ends and the CSeq names the method; and two INVITEs that are read right have one key only for the same
parts when these have as many signs of division. -/
theorem keys_faithful_iff (U : Lowering) (request : Request) (i : Invite) (hrequest : Has request i.values) :
    (∀ raw, Answers U raw i.values →
      ((keyOfResponse U raw).map (·.1) = keyOfRequest request ↔ Echoed i.values)) ∧
    ∀ request' j, Has request' j.values → ReadsRight i → ReadsRight j →
      ((SameKey request request' → i.parts = j.parts) ↔ (SameKey request request' → SameBars i.parts j.parts)) := by
  refine ⟨fun raw hanswers => keys_agree_iff hrequest hanswers, fun request' j hrequest' hi hj => ?_⟩
  constructor
  · intro h hkey
    rw [h hkey]
    exact ⟨rfl, rfl, rfl⟩
  · intro h hkey
    have hbars := h hkey
    obtain ⟨k, hki, hkj⟩ := hkey
    rw [keyOfRequest_eq hrequest] at hki
    rw [keyOfRequest_eq hrequest'] at hkj
    exact parts_of_sameBars hi hj hki hkj hbars

/-- A request with just these headers. -/
def requestOf (v : Values) : Request :=
  ⟨"sip:b@h".toList, [("Via".toList, v.via), ("From".toList, v.fromValue), ("Call-ID".toList, v.callId),
    ("CSeq".toList, v.cseq)]⟩

theorem has_requestOf {v : Values} (h : trim v.via = v.via) : Has (requestOf v) v where
  names := by
    have hnames : ∀ name ∈ ["Via".toList, "From".toList, "Call-ID".toList, "CSeq".toList], ':' ∉ name := by decide
    intro x hx
    exact hnames x.1 (List.mem_map_of_mem hx)
  via := congrArg some h
  callId := rfl
  fromValue := rfl
  cseq := rfl

def plainInvite : Invite where
  via := ⟨"SIP/2.0/UDP a:5060;rport;".toList, "branch=".toList, "z9hG4bK1".toList, ",SIP/2.0/UDP b".toList⟩
  callId := "x@y".toList
  fromText := .tagged ⟨"<sip:a@h>;".toList, "tag=".toList, "1".toList, []⟩
  cseq := "7 INVITE".toList

def plainResponse : List Char :=
  "SIP/2.0 486 Busy Here\r\n".toList ++ "v: SIP/2.0/UDP a:5060;rport;".toList ++
    "branch=z9hG4bK1,SIP/2.0/UDP b\r\n".toList ++ "f : <sip:a@h>;tag=1\r\n".toList ++
    "i:x@y\r\nCSEQ : 7 INVITE\r\n\r\n".toList

def plainMessage : RawSipMessage where
  startLine := "SIP/2.0 486 Busy Here".toList
  headers := ["v: SIP/2.0/UDP a:5060;rport;".toList ++ "branch=z9hG4bK1,SIP/2.0/UDP b".toList, "f : <sip:a@h>;tag=1".toList,
    "i:x@y".toList, "CSEQ : 7 INVITE".toList]
  body := []

theorem parse_plainResponse : parse plainResponse = .ok plainMessage := by
  have hread : (parse plainResponse).toOption.map (fun m => (m.startLine, m.headers, m.body)) =
      some (plainMessage.startLine, plainMessage.headers, plainMessage.body) := by decide +kernel
  cases hparse : parse plainResponse with
  | error e =>
      rw [hparse] at hread
      cases hread
  | ok m =>
      rw [hparse] at hread
      obtain ⟨startLine, headers, body⟩ := m
      obtain ⟨rfl, rfl, rfl⟩ : startLine = plainMessage.startLine ∧ headers = plainMessage.headers ∧
          body = plainMessage.body := by simpa using Option.some.inj hread
      rfl

theorem plain_of_all {value : List Char} (h : value.all (fun c => !endsParam c && !isWhiteSpace c) = true) :
    ∀ c ∈ value, endsParam c = false ∧ isWhiteSpace c = false := fun c hc => by
  simpa using List.all_eq_true.mp h c hc

theorem readsRight_plain : ReadsRight plainInvite where
  branch := by
    refine ⟨⟨by decide, by decide, plain_of_all (by decide), fun c hc => .inr ?_⟩, by decide, by decide⟩
    exact (Option.some.inj hc).symm
  tag := ⟨⟨by decide, by decide, plain_of_all (by decide), nofun⟩, by decide, by decide⟩

/-- The INVITE once more, over another transport. -/
def againInvite : Invite :=
  { plainInvite with via := ⟨"SIP/2.0/TCP c;".toList, "Branch=".toList, "z9hG4bK1".toList, []⟩ }

theorem readsRight_again : ReadsRight againInvite where
  branch := ⟨⟨by decide, by decide, plain_of_all (by decide), nofun⟩, by decide, by decide⟩
  tag := readsRight_plain.tag

theorem keys_faithful_plain :
    (keyOfResponse asciiOnly plainResponse).map (·.1) = keyOfRequest (requestOf plainInvite.values) ∧
      plainInvite.parts = againInvite.parts := by
  have hvia : trim plainInvite.values.via = plainInvite.values.via := by decide
  have hagain : trim againInvite.values.via = againInvite.values.via := by decide
  have hanswers : Answers asciiOnly plainResponse plainInvite.values :=
    ⟨by decide, by decide, plainMessage, parse_plainResponse, by decide, by decide,
      by decide, by decide⟩
  have hkey : SameKey (requestOf plainInvite.values) (requestOf againInvite.values) :=
    ⟨"z9hG4bK1|x@y|1|7".toList, by decide, by decide⟩
  obtain ⟨hresponse, hpairs⟩ :=
    keys_faithful_iff asciiOnly (requestOf plainInvite.values) plainInvite (has_requestOf hvia)
  have hbars : SameBars plainInvite.parts againInvite.parts :=
    ⟨by decide, by decide, by decide⟩
  refine ⟨(hresponse plainResponse hanswers).mpr (.inl ⟨by decide, by decide⟩), ?_⟩
  exact (hpairs _ againInvite (has_requestOf hagain) readsRight_plain readsRight_again).mpr (fun _ => hbars) hkey

/-- A bar in the branch or in the Call-ID, a display name that looks like a tag, and a blank behind the Call-ID. -/
theorem keys_unfaithful :
    let barred : Invite := { plainInvite with via := ⟨"SIP/2.0/UDP a;".toList, "branch=".toList, "z9hG4bK1|x".toList, []⟩ }
    let moved : Invite :=
      { plainInvite with via := ⟨"SIP/2.0/UDP a;".toList, "branch=".toList, "z9hG4bK1".toList, []⟩,
                         callId := "x|x@y".toList }
    let named (tag : List Char) : Invite :=
      { plainInvite with fromText := .tagged ⟨"\"tag=1\" <sip:a@h>;".toList, "tag=".toList, tag, []⟩ }
    let blank : Invite := { plainInvite with callId := "x@y ".toList }
    (keyOfRequest (requestOf barred.values) = keyOfRequest (requestOf moved.values) ∧ barred.parts ≠ moved.parts) ∧
      (keyOfRequest (requestOf (named "2".toList).values) = keyOfRequest (requestOf (named "3".toList).values) ∧
        (named "2".toList).parts ≠ (named "3".toList).parts) ∧
      (keyOfResponse asciiOnly plainResponse).map (·.1) ≠ keyOfRequest (requestOf blank.values) := by
  decide +kernel

end Pairs

end NixiSbc.TransactionKeys
