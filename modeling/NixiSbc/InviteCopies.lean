import NixiSbc.ViaReadings

namespace NixiSbc.InviteCopies

open TextScan TextFields TextLines TextWords TextSearch RawSip SipBuilder CrlfLines ViaReadings
open InviteTexts (buildCancel joinHead)
open CredentialLines (headerLines headerLines_lines)

section Parsed

variable {U : Lowering} {f : IdentityFields}

/-- One header into the fields found so far, by its name in small letters. -/
def setField (lower value : List Char) (f : IdentityFields) : IdentityFields :=
  if (lower = "via".toList ∨ lower = "v".toList) ∧ f.topVia = none then { f with topVia := some value }
  else if lower = "from".toList ∨ lower = "f".toList then { f with fromValue := some value }
  else if lower = "to".toList ∨ lower = "t".toList then { f with toValue := some value }
  else if lower = "call-id".toList ∨ lower = "i".toList then { f with callId := some value }
  else if lower = "cseq".toList then { f with cseq := (firstWord value).bind parseU32 }
  else if lower = "route".toList then { f with routes := f.routes ++ [value] }
  else f

theorem readIdentityLine_header {name : List Char} (hcolon : ':' ∉ name) (value : List Char) :
    readIdentityLine U f (name ++ ':' :: value) = setField (toLowercase U (trim name)) (trim value) f := by
  rw [readIdentityLine, splitOnce_append hcolon]
  rfl

theorem readIdentityLine_other {line : List Char} (h : ':' ∉ line) : readIdentityLine U f line = f := by
  rw [readIdentityLine, splitOnce, if_neg h]

def noFields : IdentityFields := ⟨none, none, none, none, none, []⟩

def fieldsOf (U : Lowering) (raw : List Char) : IdentityFields :=
  (headerLines raw).foldl (readIdentityLine U) noFields

/-- The fields of a request that has them all. -/
def allFields (id : InviteIdentity) : IdentityFields :=
  ⟨some id.topVia, some id.fromValue, some id.toValue, some id.callId, some id.cseq, id.routes⟩

def identityOf (requestUri : List Char) (f : IdentityFields) : Option InviteIdentity := do
  return ⟨requestUri, ← f.topVia, ← f.fromValue, ← f.toValue, ← f.callId, ← f.cseq, f.routes⟩

/-- The URI in the request line of a method. -/
def requestUriOf (method line : List Char) : Option (List Char) :=
  if line.takeWhile (· ≠ ' ') = method then secondField ' ' line else none

/-- What the INVITE is read for, read from a request of any method. -/
def readRequest (U : Lowering) (method raw : List Char) : Option InviteIdentity :=
  (requestUriOf method (firstLine raw)).bind fun uri => identityOf uri (fieldsOf U raw)

theorem parseInviteIdentity_eq (U : Lowering) (raw : List Char) :
    parseInviteIdentity U raw = readRequest U "INVITE".toList raw := by
  unfold parseInviteIdentity readRequest fieldsOf headerLines
  rw [splitCrlf_eq raw]
  rfl

theorem identityOf_eq_some {requestUri : List Char} {id : InviteIdentity} :
    identityOf requestUri f = some id ↔ requestUri = id.requestUri ∧ f = allFields id := by
  constructor
  · intro h
    obtain ⟨topVia, fromValue, toValue, callId, cseq, routes⟩ := f
    cases topVia <;> cases fromValue <;> cases toValue <;> cases callId <;> cases cseq <;> cases h
    exact ⟨rfl, rfl⟩
  · rintro ⟨rfl, rfl⟩
    rfl

theorem readRequest_eq_some {method raw : List Char} {id : InviteIdentity} :
    readRequest U method raw = some id ↔
      requestUriOf method (firstLine raw) = some id.requestUri ∧ fieldsOf U raw = allFields id := by
  rw [readRequest, Option.bind_eq_some_iff]
  constructor
  · rintro ⟨uri, huri, hid⟩
    obtain ⟨rfl, hfields⟩ := identityOf_eq_some.mp hid
    exact ⟨huri, hfields⟩
  · rintro ⟨huri, hfields⟩
    exact ⟨_, huri, identityOf_eq_some.mpr ⟨rfl, hfields⟩⟩

/-- A value as a header has it: on one line, with no blanks around it. -/
structure Clean (value : List Char) : Prop where
  trimmed : trim value = value
  oneLine : OneLine value

theorem clean_trim {value : List Char} (h : OneLine value) : Clean (trim value) :=
  ⟨trim_trim value, h.of_infix ((trimEnd_front _).isInfix.trans (List.dropWhile_suffix _).isInfix)⟩

structure CleanFields (f : IdentityFields) : Prop where
  topVia : ∀ v, f.topVia = some v → Clean v
  fromValue : ∀ v, f.fromValue = some v → Clean v
  toValue : ∀ v, f.toValue = some v → Clean v
  callId : ∀ v, f.callId = some v → Clean v
  routes : ∀ v ∈ f.routes, Clean v

theorem CleanFields.setField (h : CleanFields f) (lower : List Char) {value : List Char} (hvalue : Clean value) :
    CleanFields (setField lower value f) := by
  have hsome : ∀ v, some value = some v → Clean v := fun v hv => Option.some.inj hv ▸ hvalue
  unfold InviteCopies.setField
  split_ifs
  · exact { h with topVia := hsome }
  · exact { h with fromValue := hsome }
  · exact { h with toValue := hsome }
  · exact { h with callId := hsome }
  · exact { h with }
  · refine { h with routes := fun v hv => ?_ }
    rcases List.mem_append.mp hv with hold | hnew
    · exact h.routes v hold
    · exact List.mem_singleton.mp hnew ▸ hvalue
  · exact h

theorem CleanFields.readLine (h : CleanFields f) {line : List Char} (hline : OneLine line) :
    CleanFields (readIdentityLine U f line) := by
  by_cases hcolon : ':' ∈ line
  · obtain ⟨name, value, hname, rfl⟩ := exists_colon_parts hcolon
    rw [readIdentityLine_header hname]
    exact h.setField _ (clean_trim (hline.of_infix ⟨name ++ [':'], [], by simp⟩))
  · rwa [readIdentityLine_other hcolon]

theorem CleanFields.readLines (h : CleanFields f) {ls : List (List Char)} (hls : ∀ l ∈ ls, OneLine l) :
    CleanFields (ls.foldl (readIdentityLine U) f) := by
  induction ls generalizing f with
  | nil => exact h
  | cons line rest ih =>
      exact ih (h.readLine (hls line List.mem_cons_self)) fun l hl => hls l (List.mem_cons_of_mem line hl)

theorem oneLine_headerLines {raw l : List Char} (h : l ∈ headerLines raw) : OneLine l :=
  oneLine_of_mem_splitCrlf (List.mem_of_mem_drop ((List.takeWhile_sublist _).subset h))

theorem cleanFields_fieldsOf (U : Lowering) (raw : List Char) : CleanFields (fieldsOf U raw) := by
  have hnone : ∀ v, (none : Option (List Char)) = some v → Clean v := nofun
  exact CleanFields.readLines ⟨hnone, hnone, hnone, hnone, fun _ hv => absurd hv List.not_mem_nil⟩ fun l hl => oneLine_headerLines hl

theorem topVia_setField {lower value : List Char} :
    (setField lower value f).topVia =
      (f.topVia <|> if lower = "via".toList ∨ lower = "v".toList then some value else none) := by
  unfold setField
  by_cases hvia : lower = "via".toList ∨ lower = "v".toList
  · rw [if_pos hvia]
    cases htop : f.topVia with
    | none => rw [if_pos ⟨hvia, rfl⟩]; rfl
    | some v =>
        rw [if_neg fun h => nomatch h.2]
        split_ifs
        all_goals first | rfl | exact htop
  · rw [if_neg fun h => hvia h.1, if_neg hvia]
    split_ifs <;> cases f.topVia <;> rfl

/-- The top Via that is found is the first line that names one. -/
theorem topVia_readLines (ls : List (List Char)) :
    (ls.foldl (readIdentityLine U) f).topVia =
      (f.topVia <|> (ls.find? (namesVia U)).map fun l => trim (afterColon l)) := by
  induction ls generalizing f with
  | nil =>
      rw [List.foldl_nil, List.find?_nil, Option.map_none]
      cases f.topVia <;> rfl
  | cons line rest ih =>
      rw [List.foldl_cons, ih, List.find?_cons]
      by_cases hcolon : ':' ∈ line
      · obtain ⟨name, value, hname, rfl⟩ := exists_colon_parts hcolon
        rw [readIdentityLine_header hname, topVia_setField]
        have hiff := @namesVia_iff U (name ++ ':' :: value)
        rw [(colon_parts hname value).1] at hiff
        split
        next hvia =>
          rw [hiff.mpr ⟨hcolon, hvia⟩]
          cases f.topVia with
          | none => rw [Option.map_some, (colon_parts hname value).2]; rfl
          | some v => rfl
        next hvia =>
          rw [Bool.eq_false_of_not_eq_true fun h => hvia (hiff.mp h).2]
          cases f.topVia <;> rfl
      · rw [readIdentityLine_other hcolon, Bool.eq_false_of_not_eq_true fun h => hcolon (namesVia_iff.mp h).1]

/-- A request that is read has the branch of its top Via. -/
theorem topViaBranch_of_read {method raw : List Char} {id : InviteIdentity}
    (h : readRequest U method raw = some id) : topViaBranch U raw = branchOf id.topVia := by
  have hfields : (fieldsOf U raw).topVia = some id.topVia := by rw [(readRequest_eq_some.mp h).2]; rfl
  rw [fieldsOf, topVia_readLines] at hfields
  obtain ⟨line, hfind, htrim⟩ := Option.map_eq_some_iff.mp (hfields : Option.map _ _ = _)
  rw [topViaBranch_eq, hfind, ← htrim, Option.bind_some, branchOf_eq, branchOf_eq, readBranch_trim keepsEnds_id]

end Parsed

section Built

variable {U : Lowering} {f : IdentityFields}

/-- The lines of a request that copies an INVITE. -/
def copyLines (method : List Char) (id : InviteIdentity) : List (List Char) :=
  ["Via: ".toList ++ id.topVia, "Max-Forwards: 70".toList] ++ id.routes.map ("Route: ".toList ++ ·) ++
    ["From: ".toList ++ id.fromValue, "To: ".toList ++ id.toValue, "Call-ID: ".toList ++ id.callId,
      "CSeq: ".toList ++ (showNat id.cseq.toNat ++ ' ' :: method), "Content-Length: 0".toList]

def copyOf (method : List Char) (id : InviteIdentity) : List Char :=
  joinHead ((method ++ ' ' :: id.requestUri ++ " SIP/2.0".toList) :: copyLines method id) []

theorem joinLines_crlf (first : List Char) (rest : List (List Char)) :
    joinLines first rest ++ crlf = first ++ (crlf ++ rest.flatMap (· ++ crlf)) := by
  induction rest generalizing first with
  | nil => simp [joinLines]
  | cons line rest ih =>
      have hjoin : joinLines first (line :: rest) = first ++ (crlf ++ joinLines line rest) := rfl
      rw [hjoin, List.append_assoc, List.append_assoc, ih, List.flatMap_cons, List.append_assoc]

theorem copyOf_eq (method : List Char) (id : InviteIdentity) :
    copyOf method id =
      method ++ ' ' :: id.requestUri ++ " SIP/2.0".toList ++ (crlf ++ (copyLines method id).flatMap (· ++ crlf)) ++
        crlf := by
  have hends : ∀ text : List Char, text ++ RawSip.crlfCrlf ++ [] = text ++ crlf ++ crlf := fun text => by
    rw [List.append_nil, List.append_assoc]
    rfl
  rw [copyOf, joinHead, hends, joinLines_crlf]

/-- A CANCEL copies the INVITE without its routes. -/
theorem buildCancel_eq (U : Lowering) (raw : List Char) :
    buildCancel U raw = (parseInviteIdentity U raw).map fun id => copyOf "CANCEL".toList { id with routes := [] } := by
  unfold buildCancel
  refine congrArg (Option.map · _) (funext fun id => ?_)
  rw [copyOf_eq]
  unfold copyLines headerLine
  simp only [List.map_nil, List.append_nil, List.flatMap_cons, List.flatMap_nil, List.cons_append, List.append_assoc,
    List.nil_append]
  rfl

/-- An ACK copies it with them, but for the To of the response. -/
theorem buildAckForNon2xx_eq (U : Lowering) (raw responseTo : List Char) :
    buildAckForNon2xx U raw responseTo =
      (parseInviteIdentity U raw).map fun id => copyOf "ACK".toList { id with toValue := trim responseTo } := by
  unfold buildAckForNon2xx
  refine congrArg (Option.map · _) (funext fun id => ?_)
  rw [copyOf_eq]
  unfold copyLines headerLine
  simp only [List.flatMap_append, List.flatMap_map, List.flatMap_cons, List.flatMap_nil, List.cons_append,
    List.append_assoc]
  rfl

theorem trim_space (value : List Char) : trim (' ' :: value) = trim value := rfl

theorem firstWord_append {word : List Char} (h : IsWord word) {c : Char} (hc : isWhiteSpace c = true)
    (rest : List Char) : firstWord (word ++ c :: rest) = some word := by
  have hstart : trimStart (word ++ c :: rest) = word ++ c :: rest := by
    obtain ⟨first, more, rfl⟩ := List.exists_cons_of_ne_nil h.1
    exact List.dropWhile_cons_of_neg (by simp [h.2 first List.mem_cons_self])
  have hword : (word ++ c :: rest).takeWhile (fun c => !isWhiteSpace c) = word := by
    rw [List.takeWhile_append_of_pos fun d hd => by simp [h.2 d hd], List.takeWhile_cons_of_neg (by simp [hc]),
      List.append_nil]
  rw [firstWord, hstart, hword]
  cases hnil : word with
  | nil => exact absurd hnil h.1
  | cons => rfl

theorem readIdentityLine_clean {name value : List Char} (hname : ':' ∉ name) (hvalue : trim value = value) :
    readIdentityLine U f (name ++ ": ".toList ++ value) = setField (toLowercase U (trim name)) value f := by
  have hline : name ++ ": ".toList ++ value = name ++ ':' :: ' ' :: value := by rw [List.append_assoc]; rfl
  rw [hline, readIdentityLine_header hname, trim_space, hvalue]

theorem readRoutes {routes : List (List Char)} (h : ∀ v ∈ routes, Clean v) :
    (routes.map ("Route: ".toList ++ ·)).foldl (readIdentityLine U) f = { f with routes := f.routes ++ routes } := by
  induction routes generalizing f with
  | nil => simp
  | cons value rest ih =>
      have hname : ':' ∉ "Route".toList := by decide
      have hstep : readIdentityLine U f ("Route: ".toList ++ value) = { f with routes := f.routes ++ [value] } :=
        readIdentityLine_clean hname (h value List.mem_cons_self).trimmed
      rw [List.map_cons, List.foldl_cons, hstep, ih fun v hv => h v (List.mem_cons_of_mem value hv),
        List.append_assoc]
      rfl

/-- The values of an identity stand in header lines as they are. -/
structure CleanIdentity (id : InviteIdentity) : Prop extends CleanFields (allFields id) where
  uri_line : OneLine id.requestUri
  uri_word : ' ' ∉ id.requestUri

variable {method : List Char} {id : InviteIdentity}

theorem trim_cseq (hmethod : IsWord method) (n : Nat) :
    trim (showNat n ++ ' ' :: method) = showNat n ++ ' ' :: method := by
  apply trim_eq_self
  case hhead =>
    intro c hc
    rw [List.head?_append_of_ne_nil _ (showNat_ne_nil n)] at hc
    exact (isWord_showNat n).2 c (List.mem_of_head? hc)
  case hlast =>
    intro c hc
    obtain ⟨first, more, hcons⟩ := List.exists_cons_of_ne_nil hmethod.1
    rw [List.getLast?_append, hcons, List.getLast?_cons_cons, ← hcons] at hc
    cases hlast : method.getLast? with
    | none => exact absurd (List.getLast?_eq_none_iff.mp hlast) hmethod.1
    | some d =>
        rw [hlast] at hc
        cases hc
        exact hmethod.2 c (List.mem_of_getLast? hlast)

/-- The lines of a copy are read for what was written in them. -/
theorem readCopy (h : CleanFields (allFields id)) (hmethod : IsWord method) :
    (copyLines method id).foldl (readIdentityLine U) noFields = allFields id := by
  have hvia : readIdentityLine U noFields ("Via: ".toList ++ id.topVia) = { noFields with topVia := some id.topVia } :=
    readIdentityLine_clean (by decide : ':' ∉ "Via".toList) (h.topVia _ rfl).trimmed
  have hmax (g : IdentityFields) : readIdentityLine U g "Max-Forwards: 70".toList = g := rfl
  have hfrom (g : IdentityFields) : readIdentityLine U g ("From: ".toList ++ id.fromValue) =
      { g with fromValue := some id.fromValue } :=
    readIdentityLine_clean (by decide : ':' ∉ "From".toList) (h.fromValue _ rfl).trimmed
  have hto (g : IdentityFields) : readIdentityLine U g ("To: ".toList ++ id.toValue) =
      { g with toValue := some id.toValue } :=
    readIdentityLine_clean (by decide : ':' ∉ "To".toList) (h.toValue _ rfl).trimmed
  have hcall (g : IdentityFields) : readIdentityLine U g ("Call-ID: ".toList ++ id.callId) =
      { g with callId := some id.callId } :=
    readIdentityLine_clean (by decide : ':' ∉ "Call-ID".toList) (h.callId _ rfl).trimmed
  have hnumber : (firstWord (showNat id.cseq.toNat ++ ' ' :: method)).bind parseU32 = some id.cseq := by
    rw [firstWord_append (isWord_showNat _) rfl, Option.bind_some, parseU32_showNat]
  have hcseq (g : IdentityFields) : readIdentityLine U g ("CSeq: ".toList ++ (showNat id.cseq.toNat ++ ' ' :: method)) =
      { g with cseq := some id.cseq } := by
    rw [← hnumber]
    exact readIdentityLine_clean (by decide : ':' ∉ "CSeq".toList) (trim_cseq hmethod _)
  have hlength (g : IdentityFields) : readIdentityLine U g "Content-Length: 0".toList = g := rfl
  have hroutes : ∀ v ∈ id.routes, Clean v := h.routes
  rw [copyLines, List.foldl_append, List.foldl_append]
  simp only [List.foldl_cons, List.foldl_nil]
  rw [hvia, hmax, readRoutes hroutes, hfrom, hto, hcall, hcseq, hlength]
  rfl

/-- A line is written on one line when its value is. -/
theorem line_of_value {name value : List Char} (hname : CredentialLines.Branch name) (hvalue : OneLine value) :
    OneLine (name ++ value) ∧ name ++ value ≠ [] :=
  ⟨hname.oneLine_append hvalue, List.append_ne_nil_of_left_ne_nil hname.ne_nil _⟩

theorem oneLine_cseq (hmethod : IsWord method) (n : Nat) : OneLine (showNat n ++ ' ' :: method) :=
  (oneLine_of_not_lf (isWord_showNat n).not_lf).append_cons (by decide) (by decide) (oneLine_of_not_lf hmethod.not_lf)

/-- The lines of a copy stand as they are in its text. -/
theorem copyLines_lines (h : CleanFields (allFields id)) (hmethod : IsWord method) :
    ∀ l ∈ copyLines method id, OneLine l ∧ l ≠ [] := by
  intro l hl
  rw [copyLines, List.mem_append, List.mem_append] at hl
  rcases hl with (hfront | hroute) | hback
  · rcases List.mem_pair.mp hfront with rfl | rfl
    · exact line_of_value ⟨⟨by decide, by decide⟩, by decide⟩ (h.topVia _ rfl).oneLine
    · exact ⟨oneLine_of_not_lf (by decide), by decide⟩
  · obtain ⟨value, hvalue, rfl⟩ := List.mem_map.mp hroute
    exact line_of_value ⟨⟨by decide, by decide⟩, by decide⟩ (h.routes value hvalue).oneLine
  · simp only [List.mem_cons, List.not_mem_nil, or_false] at hback
    rcases hback with rfl | rfl | rfl | rfl | rfl
    · exact line_of_value ⟨⟨by decide, by decide⟩, by decide⟩ (h.fromValue _ rfl).oneLine
    · exact line_of_value ⟨⟨by decide, by decide⟩, by decide⟩ (h.toValue _ rfl).oneLine
    · exact line_of_value ⟨⟨by decide, by decide⟩, by decide⟩ (h.callId _ rfl).oneLine
    · exact line_of_value ⟨⟨by decide, by decide⟩, by decide⟩ (oneLine_cseq hmethod _)
    · exact ⟨oneLine_of_not_lf (by decide), by decide⟩

theorem requestUriOf_copy (hword : ' ' ∉ method) {uri : List Char} (huri : ' ' ∉ uri) :
    requestUriOf method (method ++ ' ' :: uri ++ " SIP/2.0".toList) = some uri := by
  have hno {text : List Char} (h : ' ' ∉ text) : ∀ c ∈ text, decide (c ≠ ' ') = true := fun c hc =>
    decide_eq_true fun heq => h (heq ▸ hc)
  have hversion : " SIP/2.0".toList = ' ' :: "SIP/2.0".toList := rfl
  have hmethod : (method ++ ' ' :: uri ++ " SIP/2.0".toList).takeWhile (· ≠ ' ') = method := by
    rw [List.append_assoc, List.takeWhile_append_of_pos (hno hword)]
    simp
  have hrest : (method ++ ' ' :: uri ++ " SIP/2.0".toList).dropWhile (· ≠ ' ') = ' ' :: (uri ++ " SIP/2.0".toList) := by
    rw [List.append_assoc, List.dropWhile_append_of_pos (hno hword)]
    simp
  rw [requestUriOf, if_pos hmethod, secondField, hrest]
  dsimp only
  rw [List.takeWhile_append_of_pos (hno huri), hversion, List.takeWhile_cons_of_neg (by decide), List.append_nil]

theorem firstLine_crlf {line : List Char} (h : OneLine line) (rest : List Char) :
    firstLine (line ++ '\r' :: '\n' :: rest) = line := by
  rw [firstLine, splitCrlf_crlf, splitCrlf_oneLine h]
  rfl

/-- A copy is read for the identity that it was made from. -/
theorem readRequest_copyOf (h : CleanIdentity id) (hmethod : IsWord method) :
    readRequest U method (copyOf method id) = some id := by
  have hword : ' ' ∉ method := fun hmem => nomatch hmethod.2 ' ' hmem
  have hlines := copyLines_lines h.toCleanFields hmethod
  have hfirst : OneLine (method ++ ' ' :: id.requestUri ++ " SIP/2.0".toList) := by
    have hversion : " SIP/2.0".toList = ' ' :: "SIP/2.0".toList := rfl
    rw [hversion]
    refine OneLine.append_cons ?_ (by decide) (by decide) (oneLine_of_not_lf (by decide))
    exact (oneLine_of_not_lf hmethod.not_lf).append_cons (by decide) (by decide) h.uri_line
  have hheaders : headerLines (copyOf method id) = copyLines method id := by
    rw [copyOf, headerLines_lines [] hfirst fun l hl => (hlines l hl).1, List.takeWhile_eq_self_iff]
    exact fun l hl => decide_eq_true (hlines l hl).2
  have hrequest : firstLine (copyOf method id) = method ++ ' ' :: id.requestUri ++ " SIP/2.0".toList := by
    rw [copyOf_eq, List.append_assoc]
    exact firstLine_crlf hfirst _
  rw [readRequest_eq_some, hrequest, fieldsOf, hheaders]
  exact ⟨requestUriOf_copy hword h.uri_word, readCopy h.toCleanFields hmethod⟩

/-- The request line gives a URI without spaces on one line. -/
theorem cleanIdentity_of_read {raw : List Char} (h : readRequest U method raw = some id) : CleanIdentity id := by
  obtain ⟨huri, hfields⟩ := readRequest_eq_some.mp h
  rw [requestUriOf] at huri
  split at huri
  next =>
    rw [secondField] at huri
    split at huri
    next => cases huri
    next rest hdrop =>
      have hrest : rest.takeWhile (· ≠ ' ') = id.requestUri := Option.some.inj huri
      have hsuffix : rest <:+ firstLine raw :=
        (List.suffix_cons _ rest).trans (hdrop ▸ List.dropWhile_suffix _)
      have hline : OneLine (firstLine raw) :=
        oneLine_of_mem_splitCrlf (splitCrlf_eq raw ▸ List.mem_cons_self)
      refine ⟨hfields ▸ cleanFields_fieldsOf U raw, ?_, ?_⟩
      · rw [← hrest]
        exact hline.of_infix ((List.takeWhile_prefix _).isInfix.trans hsuffix.isInfix)
      · rw [← hrest]
        exact not_mem_takeWhile_ne ' ' rest
  next => cases huri

/-- The message is read for the same identity as the INVITE, but for what is
changed on purpose, and has the branch of its top Via. -/
def Matches (U : Lowering) (method raw : List Char) (id : InviteIdentity) (msg : List Char) : Prop :=
  readRequest U method msg = some id ∧ topViaBranch U msg = topViaBranch U raw

theorem matches_copyOf {raw : List Char} {invite : InviteIdentity} (hread : parseInviteIdentity U raw = some invite)
    (hvia : id.topVia = invite.topVia) (h : CleanIdentity id) (hmethod : IsWord method) :
    Matches U method raw id (copyOf method id) := by
  have hcopy := readRequest_copyOf (U := U) h hmethod
  rw [parseInviteIdentity_eq] at hread
  refine ⟨hcopy, ?_⟩
  rw [topViaBranch_of_read hcopy, topViaBranch_of_read hread, hvia]

/-- The CANCEL and the ACK for an INVITE match it when it has no Route header, which the
CANCEL leaves out, and the To of the response is one line; and only then. -/
theorem copies_match_iff (U : Lowering) (raw responseTo : List Char) (id : InviteIdentity)
    (hid : parseInviteIdentity U raw = some id) :
    (∃ cancel ack, buildCancel U raw = some cancel ∧ buildAckForNon2xx U raw responseTo = some ack ∧
        Matches U "CANCEL".toList raw id cancel ∧
        Matches U "ACK".toList raw { id with toValue := trim responseTo } ack) ↔
      id.routes = [] ∧ OneLine (trim responseTo) := by
  have hclean : CleanIdentity id := cleanIdentity_of_read (parseInviteIdentity_eq U raw ▸ hid)
  have hcancel : buildCancel U raw = some (copyOf "CANCEL".toList { id with routes := [] }) := by
    rw [buildCancel_eq, hid]
    rfl
  have hack : buildAckForNon2xx U raw responseTo =
      some (copyOf "ACK".toList { id with toValue := trim responseTo }) := by
    rw [buildAckForNon2xx_eq, hid]
    rfl
  have hwordCancel : IsWord "CANCEL".toList := ⟨by decide, not_blank_of_all (by decide)⟩
  have hwordAck : IsWord "ACK".toList := ⟨by decide, not_blank_of_all (by decide)⟩
  have hnoRoutes : CleanIdentity { id with routes := [] } :=
    { hclean with routes := fun _ hv => absurd hv List.not_mem_nil }
  constructor
  · rintro ⟨cancel, ack, hcancel', hack', hcancelMatches, hackMatches⟩
    constructor
    · cases hcancel.symm.trans hcancel'
      have hsame := (readRequest_copyOf (U := U) hnoRoutes hwordCancel).symm.trans hcancelMatches.1
      exact (congrArg InviteIdentity.routes (Option.some.inj hsame)).symm
    · exact ((cleanIdentity_of_read hackMatches.1).toValue _ rfl).oneLine
  · rintro ⟨hroutes, hto⟩
    have hackClean : CleanIdentity { id with toValue := trim responseTo } :=
      { hclean with toValue := fun v hv => Option.some.inj hv ▸ ⟨trim_trim responseTo, hto⟩ }
    have hsame : { id with routes := [] } = id := by rw [← hroutes]
    refine ⟨_, _, hcancel, hack, ?_, matches_copyOf hid rfl hackClean hwordAck⟩
    rw [hsame]
    exact matches_copyOf hid rfl hclean hwordCancel

-- the text is spelled out first: the kernel is slow at taking it apart
set_option maxRecDepth 2000 in
/-- An INVITE in compact names and with two Vias. -/
theorem copies_match_compact :
    let raw := ("INVITE sip:b@h SIP/2.0\r\nv: SIP/2.0/UDP a;branch=z9hG4bK1 \r\nVia: SIP/2.0/UDP z;branch=z9hG4bK0\r\n" ++
      "f: <sip:a@h>;tag=1\r\nt: <sip:b@h>\r\ni: x@y\r\nCSeq: 7 INVITE\r\n\r\n").toList
    let id : InviteIdentity := ⟨"sip:b@h".toList, "SIP/2.0/UDP a;branch=z9hG4bK1".toList, "<sip:a@h>;tag=1".toList,
      "<sip:b@h>".toList, "x@y".toList, 7, []⟩
    ∃ cancel ack, buildCancel asciiOnly raw = some cancel ∧
      buildAckForNon2xx asciiOnly raw " <sip:b@h>;tag=2".toList = some ack ∧
      Matches asciiOnly "CANCEL".toList raw id cancel ∧
      Matches asciiOnly "ACK".toList raw { id with toValue := trim " <sip:b@h>;tag=2".toList } ack := by
  intro raw id
  have hraw : raw = _ :=
    String.toList_append.trans (congrArg₂ (· ++ ·) String.toList_ofList String.toList_ofList)
  have hid : parseInviteIdentity asciiOnly raw = some id := by
    rw [hraw]
    decide +kernel
  exact (copies_match_iff asciiOnly raw " <sip:b@h>;tag=2".toList id hid).mpr
    ⟨rfl, oneLine_of_not_lf (by decide)⟩

set_option maxRecDepth 2000 in
/-- An INVITE that is routed: the ACK has its route and the CANCEL has none. -/
theorem cancel_has_no_route :
    let raw := ("INVITE sip:b@h SIP/2.0\r\nVia: SIP/2.0/UDP a;branch=z9hG4bK1\r\nRoute: <sip:p;lr>\r\n" ++
      "From: <sip:a@h>;tag=1\r\nTo: <sip:b@h>\r\nCall-ID: x@y\r\nCSeq: 7 INVITE\r\n\r\n").toList
    (parseInviteIdentity asciiOnly raw).map (·.routes) = some ["<sip:p;lr>".toList] ∧
      ((buildAckForNon2xx asciiOnly raw "<sip:b@h>;tag=2".toList).bind
        (readRequest asciiOnly "ACK".toList)).map (·.routes) = some ["<sip:p;lr>".toList] ∧
      ((buildCancel asciiOnly raw).bind (readRequest asciiOnly "CANCEL".toList)).map (·.routes) = some [] := by
  intro raw
  have hraw : raw = _ :=
    String.toList_append.trans (congrArg₂ (· ++ ·) String.toList_ofList String.toList_ofList)
  rw [hraw]
  decide +kernel

end Built

end NixiSbc.InviteCopies
