import NixiSbc.Extensions
import NixiSbc.Topology

namespace NixiSbc.CallerResponses

open RawSip TextScan TextFields TextLines TextWords SipRender SipEdit Topology
open Extensions (FullName hasName_full hasName_apart setHeader headerText replaceFirst replaceFirst_eq_some
  replaceFirst_eq_none sameAscii trim_cons_space parse_message message)

section

variable (U : Lowering)

/-- The Via lines of the response give way to those of the caller, the first on top. -/
def restoreVias (callerVias : List (List Char)) (m : RawSipMessage) : RawSipMessage :=
  callerVias.reverse.foldl prependHeader (removeHeader U (removeHeader U m "via".toList) "v".toList)

/-- Is INVITE the second word of a CSeq? -/
def isInvite (value : List Char) : Bool := (words value)[1]?.any (sameAscii · "INVITE".toList)

/-- A retry bumps the number toward the callee only. -/
def restoreCseq (callerInviteCseq : Option UInt32) (m : RawSipMessage) : RawSipMessage :=
  match callerInviteCseq with
  | some n =>
      if (headerValues U m "cseq".toList).head?.any isInvite then
        setHeader U m "CSeq".toList (showNat n.toNat ++ " INVITE".toList)
      else m
  | none => m

def hideContact (identity : SbcIdentity) (m : RawSipMessage) : RawSipMessage :=
  if headerValues U m "contact".toList = [] then m
  else appendHeader (removeHeader U (removeHeader U m "contact".toList) "m".toList)
    ("Contact: ".toList ++ ('<' :: identity.contactUri ++ ['>']))

def hideCallee (identity : Option SbcIdentity) (m : RawSipMessage) : RawSipMessage :=
  match identity with
  | some identity =>
      prependHeader (removeHeader U (hideContact U identity m) "record-route".toList)
        ("Record-Route: ".toList ++ identity.recordRoute)
  | none => m

def restored (callerVias : List (List Char)) (identity : Option SbcIdentity) (callerInviteCseq : Option UInt32)
    (m : RawSipMessage) : RawSipMessage :=
  hideCallee U identity (restoreCseq U callerInviteCseq (restoreVias U callerVias m))

/-- A response of the callee, as the caller gets it. -/
def rewriteResponseForCaller (rawResponse : List Char) (callerVias : List (List Char)) (identity : Option SbcIdentity)
    (callerInviteCseq : Option UInt32) : List Char :=
  match parse rawResponse with
  | .ok m => render (restored U callerVias identity callerInviteCseq m)
  | .error _ => rawResponse

/-- What the caller knows its transaction by, and what would show the callee. -/
def isRewritten (h : List Char) : Bool :=
  hasName U "via".toList h || hasName U "cseq".toList h || hasName U "contact".toList h ||
    hasName U "record-route".toList h

/-- A line that the parser reads as a Via. -/
structure ViaLine (line : List Char) : Prop extends HeaderLine line where
  named : hasName U "via".toList line = true

def restoredCseq : Option UInt32 → List (List Char) → List (List Char)
  | some n, value :: more => (if isInvite value then showNat n.toNat ++ " INVITE".toList else value) :: more
  | _, values => values

def hiddenContact : Option SbcIdentity → List (List Char) → List (List Char)
  | some identity, _ :: _ => ['<' :: identity.contactUri ++ ['>']]
  | _, values => values

def hiddenRoute : Option SbcIdentity → List (List Char) → List (List Char)
  | some identity, _ => [identity.recordRoute]
  | none, values => values

/-- What the caller reads in place of what the callee sent. -/
structure Relayed (callerVias : List (List Char)) (identity : Option SbcIdentity) (callerInviteCseq : Option UInt32)
    (m out : RawSipMessage) : Prop where
  via : headerValues U out "via".toList = callerVias.map headerValue
  cseq : headerValues U out "cseq".toList = restoredCseq callerInviteCseq (headerValues U m "cseq".toList)
  contact : headerValues U out "contact".toList = hiddenContact identity (headerValues U m "contact".toList)
  recordRoute : headerValues U out "record-route".toList = hiddenRoute identity (headerValues U m "record-route".toList)
  others : out.headers.filter (fun h => !isRewritten U h) = m.headers.filter (fun h => !isRewritten U h)
  startLine : out.startLine = m.startLine
  body : out.body = m.body

end

section Names

variable {U : Lowering} {h : List Char}

theorem full_via : FullName "via".toList := ⟨by decide, by decide, by decide⟩

theorem full_cseq : FullName "cseq".toList := ⟨by decide, by decide, by decide⟩

theorem full_contact : FullName "contact".toList := ⟨by decide, by decide, by decide⟩

theorem full_recordRoute : FullName "record-route".toList := ⟨by decide, by decide, by decide⟩

/-- What a compact name removes is gone with the long one. -/
theorem removeHeader_compact {name compact : List Char} (hname : ∀ h, hasName U compact h = true → hasName U name h = true)
    (m : RawSipMessage) : removeHeader U (removeHeader U m name) compact = removeHeader U m name := by
  have hheaders : (m.headers.filter fun h => !hasName U name h).filter (fun h => !hasName U compact h) =
      m.headers.filter fun h => !hasName U name h := by
    refine List.filter_eq_self.mpr fun h hh => ?_
    cases hcompact : hasName U compact h with
    | false => rfl
    | true =>
        have hremoved := (List.mem_filter.mp hh).2
        rw [hname h hcompact] at hremoved
        cases hremoved
  unfold removeHeader
  rw [hheaders]

/-- What has not the name is found among the others of the name too. -/
theorem filter_without {name : List Char} {p : List Char → Bool} (hp : ∀ h, hasName U name h = true → p h = false)
    (ls : List (List Char)) : (ls.filter fun h => !hasName U name h).filter p = ls.filter p := by
  rw [List.filter_filter]
  refine List.filter_congr fun h _ => ?_
  cases hname : hasName U name h with
  | true => rw [hp h hname]; rfl
  | false => simp

theorem filter_removed (name : List Char) (ls : List (List Char)) :
    (ls.filter fun h => !hasName U name h).filter (hasName U name) = [] := by
  refine List.filter_eq_nil_iff.mpr fun h hh => ?_
  simpa using (List.mem_filter.mp hh).2

end Names

section Steps

variable {U : Lowering} {m : RawSipMessage} {callerVias : List (List Char)} {p : List Char → Bool}

theorem prepend_all (lines : List (List Char)) (m : RawSipMessage) :
    lines.reverse.foldl prependHeader m = { m with headers := lines ++ m.headers } := by
  rw [List.foldl_reverse]
  induction lines with
  | nil => rfl
  | cons line lines ih =>
      rw [List.foldr_cons, ih]
      rfl

theorem restoreVias_headers (callerVias : List (List Char)) (m : RawSipMessage) :
    (restoreVias U callerVias m).headers = callerVias ++ m.headers.filter fun h => !hasName U "via".toList h := by
  rw [restoreVias, prepend_all, removeHeader_compact fun h => hasName_via_of_compact]
  rfl

/-- Without the Via lines all is as it was. -/
theorem filter_restoreVias (hvias : ∀ l ∈ callerVias, ViaLine U l) (hp : ∀ h, hasName U "via".toList h = true → p h = false)
    (m : RawSipMessage) : (restoreVias U callerVias m).headers.filter p = m.headers.filter p := by
  have hnone : callerVias.filter p = [] :=
    List.filter_eq_nil_iff.mpr fun l hl => by simp [hp l (hvias l hl).named]
  rw [restoreVias_headers, List.filter_append, hnone, List.nil_append, filter_without hp]

theorem via_restoreVias (hvias : ∀ l ∈ callerVias, ViaLine U l) (m : RawSipMessage) :
    headerValues U (restoreVias U callerVias m) "via".toList = callerVias.map headerValue := by
  have hall : callerVias.filter (hasName U "via".toList) = callerVias :=
    List.filter_eq_self.mpr fun l hl => (hvias l hl).named
  rw [headerValues, restoreVias_headers, List.filter_append, hall, filter_removed, List.append_nil]

theorem canonical_restoreVias (hvias : ∀ l ∈ callerVias, ViaLine U l) (hm : Canonical m) :
    Canonical (restoreVias U callerVias m) := by
  rw [restoreVias, prepend_all]
  apply hm.withHeaders
  intro l hl
  rcases List.mem_append.mp hl with hl | hl
  · exact (hvias l hl).toHeaderLine
  · exact (canonical_removeHeader (canonical_removeHeader hm _) _).headers l hl

/-- The line of the caller's number. -/
def cseqLine (n : UInt32) : List Char := headerText "CSeq".toList (showNat n.toNat ++ " INVITE".toList)

theorem cseqLine_eq (n : UInt32) : cseqLine n = "CSeq".toList ++ ':' :: ' ' :: (showNat n.toNat ++ " INVITE".toList) := by
  rw [cseqLine, headerText, List.append_assoc]
  rfl

theorem cseqLine_cseq (n : UInt32) : hasName U "cseq".toList (cseqLine n) = true := by
  rw [cseqLine_eq, hasName_append U _ (by decide) (by decide) (by decide)]
  decide

theorem cseqLine_value (n : UInt32) : headerValue (cseqLine n) = showNat n.toNat ++ " INVITE".toList := by
  obtain ⟨hne, hblank⟩ := isWord_showNat n.toNat
  have hnumber : Plain (showNat n.toNat) := ⟨hne, List.any_eq_false.mpr fun c hc => by rw [hblank c hc]; decide⟩
  have hparts : showNat n.toNat ++ " INVITE".toList = showNat n.toNat ++ [' '] ++ "INVITE".toList := by
    rw [List.append_assoc]
    rfl
  rw [cseqLine_eq, hparts]
  exact headerValue_written _ _ _ (by decide) hnumber ⟨by decide, by decide⟩

theorem cseqLine_line (n : UInt32) : HeaderLine (cseqLine n) := by
  rw [cseqLine, headerText, List.append_assoc]
  refine headerLine_append _ (by decide) (by decide) (by decide) ?_
  exact List.not_mem_append (by decide) (List.not_mem_append (not_mem_showNat _) (by decide))

/-- The values of a name, from its first line on. -/
theorem headerValues_first {name old : List Char} {front back : List (List Char)} (hm : m.headers = front ++ old :: back)
    (hold : hasName U name old = true) (hfront : ∀ h ∈ front, hasName U name h = false) :
    headerValues U m name = headerValue old :: (back.filter (hasName U name)).map headerValue := by
  have hnone : front.filter (hasName U name) = [] := List.filter_eq_nil_iff.mpr fun h hh => by simp [hfront h hh]
  rw [headerValues, hm, List.filter_append, hnone, List.nil_append, List.filter_cons_of_pos hold, List.map_cons]

/-- The CSeq that is read is the one that is written. -/
theorem restoreCseq_cases (callerInviteCseq : Option UInt32) (m : RawSipMessage) :
    (restoreCseq U callerInviteCseq m = m ∧
      restoredCseq callerInviteCseq (headerValues U m "cseq".toList) = headerValues U m "cseq".toList) ∨
    ∃ n front old back, callerInviteCseq = some n ∧ m.headers = front ++ old :: back ∧
      restoreCseq U callerInviteCseq m = { m with headers := front ++ cseqLine n :: back } ∧
      hasName U "cseq".toList old = true ∧ (∀ h ∈ front, hasName U "cseq".toList h = false) ∧
      isInvite (headerValue old) = true := by
  cases callerInviteCseq with
  | none => exact .inl ⟨rfl, rfl⟩
  | some n =>
      unfold restoreCseq
      dsimp only
      split
      next hinvite =>
        have hset : setHeader U m "CSeq".toList (showNat n.toNat ++ " INVITE".toList) =
            (replaceFirst (hasName U "cseq".toList) (cseqLine n) m.headers).elim (appendHeader m (cseqLine n))
              fun headers => { m with headers := headers } := by
          have hname : hasName U "CSeq".toList = hasName U "cseq".toList := rfl
          have hline : headerText "CSeq".toList (showNat n.toNat ++ " INVITE".toList) = cseqLine n := rfl
          rw [setHeader, hname, hline]
          cases replaceFirst (hasName U "cseq".toList) (cseqLine n) m.headers <;> rfl
        cases hreplace : replaceFirst (hasName U "cseq".toList) (cseqLine n) m.headers with
        | none =>
            have hnone : headerValues U m "cseq".toList = [] :=
              List.map_eq_nil_iff.mpr (List.filter_eq_nil_iff.mpr fun h hh => by
                rw [replaceFirst_eq_none.mp hreplace h hh]
                decide)
            rw [hnone] at hinvite
            cases hinvite
        | some headers =>
            obtain ⟨front, old, back, hheaders, rfl, hold, hfront⟩ := replaceFirst_eq_some hreplace
            rw [headerValues_first hheaders hold hfront, List.head?_cons, Option.any_some] at hinvite
            rw [hreplace] at hset
            exact .inr ⟨n, front, old, back, rfl, hheaders, hset, hold, hfront, hinvite⟩
      next hother =>
        refine .inl ⟨rfl, ?_⟩
        cases hvalues : headerValues U m "cseq".toList with
        | nil => rfl
        | cons value more =>
            rw [hvalues, List.head?_cons, Option.any_some] at hother
            rw [restoredCseq, if_neg hother]

theorem filter_restoreCseq (hp : ∀ h, hasName U "cseq".toList h = true → p h = false) (callerInviteCseq : Option UInt32)
    (m : RawSipMessage) : (restoreCseq U callerInviteCseq m).headers.filter p = m.headers.filter p := by
  rcases restoreCseq_cases (U := U) callerInviteCseq m with ⟨hsame, -⟩ | ⟨n, front, old, back, -, hm, hout, hold, -, -⟩
  · rw [hsame]
  · rw [hout, hm, List.filter_append, List.filter_append, List.filter_cons_of_neg (by simp [hp _ (cseqLine_cseq n)]),
      List.filter_cons_of_neg (by simp [hp _ hold])]

theorem cseq_restoreCseq (callerInviteCseq : Option UInt32) (m : RawSipMessage) :
    headerValues U (restoreCseq U callerInviteCseq m) "cseq".toList =
      restoredCseq callerInviteCseq (headerValues U m "cseq".toList) := by
  rcases restoreCseq_cases (U := U) callerInviteCseq m with ⟨hsame, hvalues⟩ | ⟨n, front, old, back, rfl, hm, hout, hold, hfront, hinvite⟩
  · rw [hsame, hvalues]
  · have hnew : (restoreCseq U (some n) m).headers = front ++ cseqLine n :: back := by rw [hout]
    rw [headerValues_first hm hold hfront, headerValues_first hnew (cseqLine_cseq n) hfront, cseqLine_value, restoredCseq,
      if_pos hinvite]

theorem canonical_restoreCseq (hm : Canonical m) (callerInviteCseq : Option UInt32) :
    Canonical (restoreCseq U callerInviteCseq m) := by
  rcases restoreCseq_cases (U := U) callerInviteCseq m with ⟨hsame, -⟩ | ⟨n, front, old, back, -, hheaders, hout, -, -, -⟩
  · rw [hsame]
    exact hm
  · rw [hout]
    apply hm.withHeaders
    intro l hl
    have hold := hm.headers
    rw [hheaders] at hold
    rcases List.mem_append.mp hl with hl | hl
    · exact hold l (List.mem_append_left _ hl)
    · rcases List.mem_cons.mp hl with rfl | hl
      · exact cseqLine_line n
      · exact hold l (List.mem_append_right _ (List.mem_cons_of_mem _ hl))

theorem hideContact_headers (identity : SbcIdentity) (m : RawSipMessage) :
    (hideContact U identity m).headers = m.headers.filter (fun h => !hasName U "contact".toList h) ++
      if headerValues U m "contact".toList = [] then []
      else ["Contact".toList ++ ':' :: ' ' :: ('<' :: identity.contactUri ++ ['>'])] := by
  have hline := append_label "Contact: ".toList "Contact".toList ('<' :: identity.contactUri ++ ['>']) (by decide)
  rw [hideContact]
  split
  next hnone =>
    have hall : m.headers.filter (fun h => !hasName U "contact".toList h) = m.headers := by
      refine List.filter_eq_self.mpr fun h hh => ?_
      have hno := List.filter_eq_nil_iff.mp (List.map_eq_nil_iff.mp hnone) h hh
      rw [Bool.not_eq_true] at hno
      rw [hno]
      rfl
    rw [hall, List.append_nil]
  next =>
    rw [removeHeader_compact fun h => hasName_contact_of_compact, hline]
    rfl

theorem hideCallee_headers (identity : SbcIdentity) (m : RawSipMessage) :
    (hideCallee U (some identity) m).headers = ("Record-Route".toList ++ ':' :: ' ' :: identity.recordRoute) ::
      (hideContact U identity m).headers.filter fun h => !hasName U "record-route".toList h := by
  have hline := append_label "Record-Route: ".toList "Record-Route".toList identity.recordRoute (by decide)
  rw [hideCallee, hline]
  rfl

/-- Of the names of neither all is as it was. -/
theorem filter_hideCallee (hcontact : ∀ h, hasName U "contact".toList h = true → p h = false)
    (hrecord : ∀ h, hasName U "record-route".toList h = true → p h = false) (identity : Option SbcIdentity)
    (m : RawSipMessage) : (hideCallee U identity m).headers.filter p = m.headers.filter p := by
  cases identity with
  | none => rfl
  | some identity =>
      have hown := (recordRouteLine_names U (' ' :: identity.recordRoute)).2.2.1
      have hown' := (contactLine_names U (' ' :: ('<' :: identity.contactUri ++ ['>']))).2.1
      have hnone : (if headerValues U m "contact".toList = [] then []
          else ["Contact".toList ++ ':' :: ' ' :: ('<' :: identity.contactUri ++ ['>'])]).filter p = [] := by
        split
        next => rfl
        next => rw [List.filter_cons_of_neg (by rw [hcontact _ hown']; decide), List.filter_nil]
      rw [hideCallee_headers, List.filter_cons_of_neg (by rw [hrecord _ hown]; decide), filter_without hrecord,
        hideContact_headers, List.filter_append, hnone, List.append_nil, filter_without hcontact]

theorem contact_hideCallee (identity : Option SbcIdentity) (m : RawSipMessage) :
    headerValues U (hideCallee U identity m) "contact".toList = hiddenContact identity (headerValues U m "contact".toList) := by
  cases identity with
  | none => rfl
  | some identity =>
      have hrecord := (recordRouteLine_names U (' ' :: identity.recordRoute)).2.1
      have hown := (contactLine_names U (' ' :: ('<' :: identity.contactUri ++ ['>']))).2.1
      rw [headerValues, hideCallee_headers, List.filter_cons_of_neg (by rw [hrecord]; decide),
        filter_without fun h => hasName_apart full_recordRoute full_contact (by decide), hideContact_headers,
        List.filter_append, filter_removed, List.nil_append]
      cases hvalues : headerValues U m "contact".toList with
      | nil => rfl
      | cons value more =>
          rw [if_neg (List.cons_ne_nil value more), List.filter_cons_of_pos hown, List.filter_nil, List.map_cons, List.map_nil,
            angled_value (by decide) identity.contactUri]
          rfl

theorem recordRoute_hideCallee (identity : Option SbcIdentity) (m : RawSipMessage) :
    headerValues U (hideCallee U identity m) "record-route".toList =
      hiddenRoute identity (headerValues U m "record-route".toList) := by
  cases identity with
  | none => rfl
  | some identity =>
      have hown := (recordRouteLine_names U (' ' :: identity.recordRoute)).2.2.1
      obtain ⟨uri, hroute⟩ := recordRoute_eq identity
      rw [headerValues, hideCallee_headers, List.filter_cons_of_pos hown, filter_removed, List.map_cons, List.map_nil, hroute,
        angled_value (by decide) uri, ← hroute]
      rfl

theorem canonical_hideCallee (hm : Canonical m) {identity : Option SbcIdentity}
    (hidentity : ∀ id ∈ identity, OneLine id) : Canonical (hideCallee U identity m) := by
  cases identity with
  | none => exact hm
  | some identity =>
      have hone := hidentity identity rfl
      have hcontact : HeaderLine ("Contact: ".toList ++ ('<' :: identity.contactUri ++ ['>'])) :=
        headerLine_append _ (by decide) (by decide) (by decide)
          (List.not_mem_append (List.not_mem_cons_of_ne_of_not_mem (by decide) hone.contactUri) (by decide))
      have hrecord : HeaderLine ("Record-Route: ".toList ++ identity.recordRoute) :=
        headerLine_append _ (by decide) (by decide) (by decide) hone.recordRoute
      have hhidden : Canonical (hideContact U identity m) := by
        rw [hideContact]
        split
        next => exact hm
        next => exact canonical_appendHeader (canonical_removeHeader (canonical_removeHeader hm _) _) hcontact
      exact canonical_prependHeader (canonical_removeHeader hhidden _) hrecord

end Steps

section Result

variable {U : Lowering} {callerVias : List (List Char)}

theorem not_rewritten {name h : List Char} (hname : ∀ h, isRewritten U h = false → hasName U name h = false)
    (hh : hasName U name h = true) : (!isRewritten U h) = false := by
  cases hrewritten : isRewritten U h with
  | true => rfl
  | false =>
      rw [hname h hrewritten] at hh
      cases hh

/-- The rest of the message is nobody's. -/
theorem rest_restored (callerVias : List (List Char)) (identity : Option SbcIdentity) (callerInviteCseq : Option UInt32)
    (m : RawSipMessage) : (restored U callerVias identity callerInviteCseq m).startLine = m.startLine ∧
      (restored U callerVias identity callerInviteCseq m).body = m.body := by
  have hvias : (restoreVias U callerVias m).startLine = m.startLine ∧ (restoreVias U callerVias m).body = m.body := by
    rw [restoreVias, prepend_all]
    exact ⟨rfl, rfl⟩
  have hcseq (m : RawSipMessage) : (restoreCseq U callerInviteCseq m).startLine = m.startLine ∧
      (restoreCseq U callerInviteCseq m).body = m.body := by
    rcases restoreCseq_cases (U := U) callerInviteCseq m with ⟨hsame, -⟩ | ⟨n, front, old, back, -, -, hout, -⟩
    · rw [hsame]
      exact ⟨rfl, rfl⟩
    · rw [hout]
      exact ⟨rfl, rfl⟩
  have hcallee (m : RawSipMessage) : (hideCallee U identity m).startLine = m.startLine ∧
      (hideCallee U identity m).body = m.body := by
    cases identity with
    | none => exact ⟨rfl, rfl⟩
    | some identity =>
        rw [hideCallee, hideContact]
        split
        next => exact ⟨rfl, rfl⟩
        next => exact ⟨rfl, rfl⟩
  exact ⟨(hcallee _).1.trans ((hcseq _).1.trans hvias.1), (hcallee _).2.trans ((hcseq _).2.trans hvias.2)⟩

theorem relayed_restored (hvias : ∀ l ∈ callerVias, ViaLine U l) (identity : Option SbcIdentity)
    (callerInviteCseq : Option UInt32) (m : RawSipMessage) :
    Relayed U callerVias identity callerInviteCseq m (restored U callerVias identity callerInviteCseq m) := by
  have hapart {name other : List Char} (hname : FullName name) (hother : FullName other) (hne : name ≠ other) :
      ∀ h, hasName U name h = true → hasName U other h = false := fun _ => hasName_apart hname hother hne
  have hothers {name : List Char} (hname : ∀ h, isRewritten U h = false → hasName U name h = false) :
      ∀ h, hasName U name h = true → (!isRewritten U h) = false := fun _ => not_rewritten hname
  have hunseen (h : List Char) (hh : isRewritten U h = false) : hasName U "via".toList h = false ∧
      hasName U "cseq".toList h = false ∧ hasName U "contact".toList h = false ∧
      hasName U "record-route".toList h = false := by
    rw [isRewritten, Bool.or_eq_false_iff, Bool.or_eq_false_iff, Bool.or_eq_false_iff] at hh
    obtain ⟨⟨⟨hvia, hcseq⟩, hcontact⟩, hrecord⟩ := hh
    exact ⟨hvia, hcseq, hcontact, hrecord⟩
  obtain ⟨hstart, hbody⟩ := rest_restored (U := U) callerVias identity callerInviteCseq m
  refine ⟨?via, ?cseq, ?contact, ?recordRoute, ?others, hstart, hbody⟩
  case via =>
    rw [headerValues, restored, filter_hideCallee (hapart full_contact full_via (by decide))
      (hapart full_recordRoute full_via (by decide)), filter_restoreCseq (hapart full_cseq full_via (by decide))]
    exact via_restoreVias hvias m
  case cseq =>
    have hsame : headerValues U (restoreVias U callerVias m) "cseq".toList = headerValues U m "cseq".toList :=
      congrArg (List.map headerValue) (filter_restoreVias hvias (hapart full_via full_cseq (by decide)) m)
    rw [headerValues, restored, filter_hideCallee (hapart full_contact full_cseq (by decide))
      (hapart full_recordRoute full_cseq (by decide)), ← hsame]
    exact cseq_restoreCseq callerInviteCseq _
  case contact =>
    rw [restored, contact_hideCallee, headerValues, filter_restoreCseq (hapart full_cseq full_contact (by decide)),
      filter_restoreVias hvias (hapart full_via full_contact (by decide))]
    rfl
  case recordRoute =>
    rw [restored, recordRoute_hideCallee, headerValues, filter_restoreCseq (hapart full_cseq full_recordRoute (by decide)),
      filter_restoreVias hvias (hapart full_via full_recordRoute (by decide))]
    rfl
  case others =>
    rw [restored, filter_hideCallee (hothers fun h hh => (hunseen h hh).2.2.1) (hothers fun h hh => (hunseen h hh).2.2.2),
      filter_restoreCseq (hothers fun h hh => (hunseen h hh).2.1),
      filter_restoreVias hvias (hothers fun h hh => (hunseen h hh).1)]

end Result

/-- Whatever the callee answers, the caller reads its own Vias and the number of
its INVITE, the SBC in Contact and Record-Route, and the rest as it came. -/
theorem response_relayed (U : Lowering) (raw : List Char) {m : RawSipMessage} (hm : parse raw = .ok m)
    {callerVias : List (List Char)} (hvias : ∀ l ∈ callerVias, ViaLine U l) {identity : Option SbcIdentity}
    (hidentity : ∀ id ∈ identity, OneLine id) (callerInviteCseq : Option UInt32) :
    ∃ out, parse (rewriteResponseForCaller U raw callerVias identity callerInviteCseq) = .ok out ∧
      Relayed U callerVias identity callerInviteCseq m out := by
  have hcanonical : Canonical (restored U callerVias identity callerInviteCseq m) :=
    canonical_hideCallee (canonical_restoreCseq (canonical_restoreVias hvias (parse_canonical hm)) _) hidentity
  have hout : rewriteResponseForCaller U raw callerVias identity callerInviteCseq =
      render (restored U callerVias identity callerInviteCseq m) := by
    rw [rewriteResponseForCaller, hm]
  rw [hout]
  exact ⟨_, parse_render hcanonical, relayed_restored hvias identity callerInviteCseq m⟩

/-- A response of the trunk, after a retry. -/
def trunkResponse : List Char :=
  "SIP/2.0 200 OK\r\n".toList ++ "v: SIP/2.0/UDP 1.2.3.4\r\n".toList ++ "CSeq: 4 INVITE\r\n".toList ++
    "m: <sip:10.0.0.2>\r\nTo: b\r\n\r\nx".toList

theorem response_relayed_restored :
    ∃ out, parse (rewriteResponseForCaller asciiOnly trunkResponse ["Via: SIP/2.0/UDP 10.0.0.9".toList]
        (some publicIdentity) (some 3)) = .ok out ∧
      Relayed asciiOnly ["Via: SIP/2.0/UDP 10.0.0.9".toList] (some publicIdentity) (some 3) (message trunkResponse) out := by
  refine response_relayed asciiOnly trunkResponse (parse_message trunkResponse) ?_ ?_ (some 3)
  · intro l hl
    rw [List.mem_singleton.mp hl]
    exact ⟨⟨by decide, by decide, by decide⟩, by decide +kernel⟩
  · intro id hid
    rw [← Option.mem_some_iff.mp hid]
    exact ⟨by decide, by decide⟩

/-- A realm of two lines. -/
def brokenIdentity : SbcIdentity := { publicIdentity with sipDomain := "sip.nixi.tel\nContact: <sip:10.0.0.2>".toList }

/-- The second line of the domain becomes a Contact. -/
theorem contact_behind_line_feed :
    headerValues asciiOnly (message (rewriteResponseForCaller asciiOnly trunkResponse ["Via: SIP/2.0/UDP 10.0.0.9".toList]
      (some brokenIdentity) (some 3))) "contact".toList = ["<sip:10.0.0.2>;lr>".toList, "<sip:sbc@203.0.113.1:5060>".toList] := by
  decide +kernel

end NixiSbc.CallerResponses
