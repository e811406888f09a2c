import NixiSbc.ClientTx
import NixiSbc.CredentialLines

namespace NixiSbc.BuiltRequests

open TextScan TextFields TextLines RawSip SipBuilder CrlfLines
open B2bua (transportToken)
open ClientTx (requestMethod tracked)
open InviteTexts (newBranch)

section Branch

variable {front : List Char}

theorem findSub_branch (h : '=' ∉ front) (rest : List Char) :
    findSub branchText (front ++ (branchText ++ rest)) = some front.length := by
  apply findSub_of_first
  case hat =>
    rw [List.drop_left]
    exact List.prefix_append _ _
  case hk => exact List.length_append ▸ Nat.le_add_right _ _
  case hbefore =>
    -- at an earlier place the sign would stand in front of the pattern
    intro j hj hprefix
    have hbefore : '=' ∉ front ++ "branch".toList := List.not_mem_append h (by decide)
    have hsplit : front ++ (branchText ++ rest) = (front ++ "branch".toList) ++ '=' :: rest := by
      rw [List.append_assoc]
      rfl
    have hlt : j + 6 < (front ++ "branch".toList).length := by
      rw [List.length_append]
      exact Nat.add_lt_add_right hj 6
    have hat : ((front ++ "branch".toList) ++ '=' :: rest)[j + 6]? = some '=' := by
      rw [hsplit] at hprefix
      rw [← List.getElem?_drop]
      exact (List.prefix_iff_getElem?.mp hprefix 6 (by decide)).trans rfl
    rw [List.getElem?_append_left hlt] at hat
    exact hbefore (List.mem_of_getElem? hat)

/-- What ends a branch. -/
def endsBranch (c : Char) : Bool := c = ';' ∨ c = ',' ∨ isWhiteSpace c

theorem semicolon_ne_digitChar : ∀ d : Nat, d.digitChar ≠ ';'
  | 0 | 1 | 2 | 3 | 4 | 5 | 6 | 7 | 8 | 9 | 10 | 11 | 12 | 13 | 14 | 15 => by decide
  | _ + 16 => by simp [Nat.digitChar]

theorem comma_ne_digitChar : ∀ d : Nat, d.digitChar ≠ ','
  | 0 | 1 | 2 | 3 | 4 | 5 | 6 | 7 | 8 | 9 | 10 | 11 | 12 | 13 | 14 | 15 => by decide
  | _ + 16 => by simp [Nat.digitChar]

theorem endsBranch_digitChar (d : Nat) : endsBranch d.digitChar = false := by
  rw [endsBranch, decide_eq_false_iff_not]
  rintro (h | h | h)
  · exact semicolon_ne_digitChar d h
  · exact comma_ne_digitChar d h
  · cases (isWhiteSpace_digitChar d).symm.trans h

theorem endsBranch_newBranch {draw : UInt64} {c : Char} (h : c ∈ newBranch draw) : endsBranch c = false := by
  rcases List.mem_append.mp h with hcookie | hhex
  · have hall : "z9hG4bK".toList.all (fun c => !endsBranch c) = true := by decide
    simpa using List.all_eq_true.mp hall c hcookie
  · obtain ⟨d, rfl⟩ := mem_showHex hhex
    exact endsBranch_digitChar d

/-- A branch is read as it was written. -/
theorem branchOf_append (h : '=' ∉ front) {branch rest : List Char} (hne : branch ≠ [])
    (hbranch : ∀ c ∈ branch, endsBranch c = false) (hrest : ∀ c ∈ rest.head?, endsBranch c = true) :
    branchOf (front ++ (branchText ++ (branch ++ rest))) = some branch := by
  have hword : ((branch ++ rest).takeWhile fun c => !(c = ';' ∨ c = ',' ∨ isWhiteSpace c)) = branch := by
    change (branch ++ rest).takeWhile (fun c => !endsBranch c) = branch
    rw [List.takeWhile_append_of_pos fun c hc => (congrArg not (hbranch c hc) :)]
    cases rest with
    | nil => exact List.append_nil _
    | cons c rest =>
        rw [List.takeWhile_cons_of_neg (by simp [hrest c rfl]), List.append_nil]
  have hblank : ∀ c ∈ branch, isWhiteSpace c = false := by
    intro c hc
    have hends := hbranch c hc
    rw [endsBranch, decide_eq_false_iff_not, not_or, not_or] at hends
    exact Bool.eq_false_iff.mpr hends.2.2
  have htrim : trim branch = branch :=
    trim_eq_self (fun c hc => hblank c (List.mem_of_mem_head? hc)) fun c hc => hblank c (List.mem_of_getLast? hc)
  simp only [branchOf, findSub_branch h]
  rw [← List.append_assoc front, ← List.length_append, List.drop_left, hword, htrim]
  cases branch with
  | nil => exact absurd rfl hne
  | cons c branch => rfl

theorem branchOf_newBranch (h : '=' ∉ front) (draw : UInt64) :
    branchOf (front ++ (branchText ++ (newBranch draw ++ ";rport".toList))) = some (newBranch draw) := by
  have hsemicolon : ∀ c ∈ (";rport".toList).head?, endsBranch c = true := by
    intro c hc
    cases hc
    rfl
  exact branchOf_append h (List.append_ne_nil_of_left_ne_nil (by decide) _) (fun c hc => endsBranch_newBranch hc)
    hsemicolon

end Branch

section Lines

variable {V : Uppering} {d : DialogInfo}

/-- The value of the Via up to its branch. -/
def viaFront (V : Uppering) (d : DialogInfo) : List Char :=
  " SIP/2.0/".toList ++ toUppercase V d.transport ++ ' ' :: d.localIp ++ ':' :: showNat d.localPort.toNat ++ [';']

/-- A request begins with its request line and its Via. -/
theorem buildRequest_lines (V : Uppering) (branch method : List Char) (d : DialogInfo) (cseqMethod : List Char)
    (extraHeaders : List (List Char × List Char)) (body : List Char) :
    ∃ rest, buildRequest V branch method d cseqMethod extraHeaders body =
      (method ++ ' ' :: d.requestUri ++ " SIP/2.0".toList) ++ '\r' :: '\n' ::
        (("Via".toList ++ ':' :: (viaFront V d ++ (branchText ++ (branch ++ ";rport".toList)))) ++
          '\r' :: '\n' :: rest) := by
  refine ⟨headerLine "Max-Forwards".toList "70".toList ++ (headerLine "From".toList d.fromRaw ++
    (headerLine "To".toList d.toRaw ++ (headerLine "Call-ID".toList d.callId ++
    (headerLine "CSeq".toList (showNat d.cseq.toNat ++ ' ' :: cseqMethod) ++
    (extraHeaders.flatMap (fun h => headerLine h.1 h.2) ++
    (headerLine "Content-Length".toList (showNat (Utf8.encode body).length) ++ (crlf ++ body))))))), ?_⟩
  have hrequest : " SIP/2.0\r\n".toList = " SIP/2.0".toList ++ ['\r', '\n'] := rfl
  have hcolon : ": ".toList = [':', ' '] := rfl
  have hversion : " SIP/2.0/".toList = ' ' :: "SIP/2.0/".toList := rfl
  have hbranch : ";branch=".toList = ';' :: branchText := rfl
  unfold buildRequest viaFront headerLine crlf
  simp only [hrequest, hversion, hbranch, hcolon, List.append_assoc, List.cons_append, List.nil_append]

theorem not_mem_viaFront {c : Char} (htransport : d.transport = transportToken .udp) (hip : c ∉ d.localIp)
    (hversion : c ∉ " SIP/2.0/UDP".toList) (hsigns : c ∉ [' ', ':', ';']) (hdigit : ∀ n : Nat, c ≠ n.digitChar) :
    c ∉ viaFront V d := by
  have hudp : " SIP/2.0/".toList ++ toUppercase V d.transport = " SIP/2.0/UDP".toList := by
    rw [htransport]
    rfl
  have hport : c ∉ showNat d.localPort.toNat := by
    intro hmem
    obtain ⟨n, hn⟩ := mem_toDigits (by decide) hmem
    exact hdigit n hn
  rw [List.mem_cons, List.mem_cons, List.mem_singleton, not_or, not_or] at hsigns
  obtain ⟨hspace, hcolon, hsemicolon⟩ := hsigns
  unfold viaFront
  rw [hudp]
  refine List.not_mem_append (List.not_mem_append (List.not_mem_append hversion ?_) ?_) ?_
  · exact List.not_mem_cons_of_ne_of_not_mem hspace hip
  · exact List.not_mem_cons_of_ne_of_not_mem hcolon hport
  · exact fun h => hsemicolon (List.mem_singleton.mp h)

theorem sign_ne_digitChar : ∀ n : Nat, '=' ≠ n.digitChar
  | 0 | 1 | 2 | 3 | 4 | 5 | 6 | 7 | 8 | 9 | 10 | 11 | 12 | 13 | 14 | 15 => by decide
  | _ + 16 => by simp [Nat.digitChar]

/-- The request goes to an address and from one that are single lines. -/
structure Sendable (d : DialogInfo) : Prop where
  uri : '\n' ∉ d.requestUri
  ip_line : '\n' ∉ d.localIp
  ip_sign : '=' ∉ d.localIp

theorem Sendable.front_line (h : Sendable d) (htransport : d.transport = transportToken .udp) : '\n' ∉ viaFront V d :=
  not_mem_viaFront htransport h.ip_line (by decide) (by decide) fun n hn => by
    cases (congrArg isWhiteSpace hn).trans (isWhiteSpace_digitChar n)

theorem Sendable.front_sign (h : Sendable d) (htransport : d.transport = transportToken .udp) : '=' ∉ viaFront V d :=
  not_mem_viaFront htransport h.ip_sign (by decide) (by decide) sign_ne_digitChar

theorem requestMethod_invite {uri : List Char} (h : '\n' ∉ uri) (rest : List Char) :
    requestMethod (("INVITE".toList ++ ' ' :: uri ++ " SIP/2.0".toList) ++ '\r' :: '\n' :: rest) =
      some "INVITE".toList := by
  have hline : '\n' ∉ "INVITE".toList ++ ' ' :: uri ++ " SIP/2.0".toList :=
    List.not_mem_append (List.not_mem_append (by decide) (List.not_mem_cons_of_ne_of_not_mem (by decide) h)) (by decide)
  have hversion : "SIP/2.0".toList <:+ "INVITE".toList ++ ' ' :: uri ++ " SIP/2.0".toList :=
    (List.suffix_cons ' ' "SIP/2.0".toList).trans (List.suffix_append _ _)
  unfold requestMethod
  rw [lines_append hline]
  dsimp only
  rw [if_pos hversion]
  rfl

theorem topViaBranch_built (U : Lowering) {requestLine front rest : List Char} (hline : '\n' ∉ requestLine)
    (hfront : '\n' ∉ front) (hsign : '=' ∉ front) (draw : UInt64) :
    topViaBranch U (requestLine ++ '\r' :: '\n' ::
      (("Via".toList ++ ':' :: (front ++ (branchText ++ (newBranch draw ++ ";rport".toList)))) ++
        '\r' :: '\n' :: rest)) = some (newBranch draw) := by
  have hvia : '\n' ∉ "Via".toList ++ ':' :: (front ++ (branchText ++ (newBranch draw ++ ";rport".toList))) := by
    refine List.not_mem_append (by decide) (List.not_mem_cons_of_ne_of_not_mem (by decide) ?_)
    refine List.not_mem_append hfront (List.not_mem_append (by decide) (List.not_mem_append ?_ (by decide)))
    exact (CredentialLines.branch_newBranch draw).no_lf
  have hlower : toLowercase U (trim "Via".toList) = "via".toList := rfl
  have hcolon : ':' ∉ "Via".toList := by decide
  rw [topViaBranch, splitCrlf_crlf, splitCrlf_oneLine (oneLine_of_not_lf hline), splitCrlf_crlf,
    splitCrlf_oneLine (oneLine_of_not_lf hvia)]
  simp only [List.singleton_append, List.drop_one, List.tail_cons, viaBranchIn]
  rw [if_neg (List.append_ne_nil_of_left_ne_nil (by decide) _), splitOnce_append hcolon]
  dsimp only
  rw [hlower, if_pos (.inl rfl)]
  exact branchOf_newBranch hsign draw

/-- An INVITE within a call is tracked under its branch, whatever headers it has besides. -/
theorem tracked_invite (U : Lowering) (h : Sendable d) (htransport : d.transport = transportToken .udp) (draw : UInt64)
    (extra : List (List Char × List Char)) (sdp : List Char) :
    tracked U (Utf8.encode (buildRequest V (newBranch draw) "INVITE".toList d "INVITE".toList extra sdp)) .udp =
      some (newBranch draw, "INVITE".toList) := by
  obtain ⟨rest, hlines⟩ := buildRequest_lines V (newBranch draw) "INVITE".toList d "INVITE".toList extra sdp
  have hline : '\n' ∉ "INVITE".toList ++ ' ' :: d.requestUri ++ " SIP/2.0".toList :=
    List.not_mem_append (List.not_mem_append (by decide) (List.not_mem_cons_of_ne_of_not_mem (by decide) h.uri))
      (by decide)
  have hutf (text : List Char) : Utf8.fromUtf8 (Utf8.encode text) = some text := Utf8.fromUtf8_eq_some.mpr rfl
  have hack : "INVITE".toList ≠ "ACK".toList := by decide
  unfold tracked
  rw [if_neg (not_not.mpr rfl), hutf, hlines]
  dsimp only
  rw [requestMethod_invite h.uri]
  dsimp only
  rw [if_neg hack, topViaBranch_built U hline (h.front_line htransport) (h.front_sign htransport)]
  rfl

/-- A re-INVITE is retransmitted under the branch that was drawn for it. -/
theorem tracked_reinvite (U : Lowering) (h : Sendable d) (htransport : d.transport = transportToken .udp) (draw : UInt64)
    (sdp contactUri : List Char) (sessionExpires : Option (UInt32 × List Char)) (minSe : Option UInt32) :
    tracked U (Utf8.encode (buildReinvite V (newBranch draw) d sdp contactUri sessionExpires minSe)) .udp =
      some (newBranch draw, "INVITE".toList) := by
  unfold buildReinvite
  exact tracked_invite U h htransport draw _ sdp

end Lines

end NixiSbc.BuiltRequests
