import NixiSbc.AddressTexts
import NixiSbc.BuiltRequests
import NixiSbc.ClientTxSchedule
import NixiSbc.InviteAttempts
import NixiSbc.OutboundInvite
import Mathlib.Data.Int.ModEq

namespace NixiSbc.HiddenBranches

open ByteWords Stun Diagnostics TextScan TextFields TextLines RawSip SipRender SipBuilder SipEdit Topology CrlfLines
open AddressTexts (hexadecimal_toDigits)
open B2bua (Transport B2buaCall InviteAttempt InviteResponseClass classifyInviteResponse)
open BuiltRequests (endsBranch endsBranch_digitChar branchOf_append sign_ne_digitChar)
open ClientTx (Cache key tracked recordSent answeredParts makeRoom afterCancel)
open ClientTxSchedule (recordSent_cases)
open OutboundInvite (outboundTransportName toUppercase_transport)

section Hexadecimal

theorem hexadecimal_replicate_zero (k : Nat) (digits : List Char) :
    hexadecimal (List.replicate k '0' ++ digits) = hexadecimal digits := by
  induction k with
  | zero => rfl
  | succ k ih => exact ih

theorem toList_paddedHex (width n : Nat) : (paddedHex width n).toList =
    List.replicate (width - (Nat.toDigits 16 n).length) '0' ++ Nat.toDigits 16 n := String.toList_ofList

theorem hexadecimal_paddedHex (width n : Nat) : hexadecimal (paddedHex width n).toList = n := by
  rw [toList_paddedHex, hexadecimal_replicate_zero, hexadecimal_toDigits]

theorem newBranch_inj {m n : UInt32} (h : newBranch m = newBranch n) : m = n := by
  have hhex := congrArg hexadecimal (List.append_cancel_left h)
  rw [hexadecimal_paddedHex, hexadecimal_paddedHex] at hhex
  exact UInt32.toNat_inj.mp hhex

theorem mem_paddedHex {width n : Nat} {c : Char} (h : c ∈ (paddedHex width n).toList) : ∃ d : Nat, c = d.digitChar := by
  rw [toList_paddedHex] at h
  rcases List.mem_append.mp h with h | h
  · exact ⟨0, List.eq_of_mem_replicate h⟩
  · exact mem_toDigits (by decide) h

theorem endsBranch_newBranch {n : UInt32} {c : Char} (h : c ∈ newBranch n) : endsBranch c = false := by
  rcases List.mem_append.mp h with hcookie | hhex
  · have hall : "z9hG4bK".toList.all (fun c => !endsBranch c) = true := by decide
    simpa using List.all_eq_true.mp hall c hcookie
  · obtain ⟨d, rfl⟩ := mem_paddedHex hhex
    exact endsBranch_digitChar d

theorem bar_ne_digitChar : ∀ d : Nat, '|' ≠ d.digitChar
  | 0 | 1 | 2 | 3 | 4 | 5 | 6 | 7 | 8 | 9 | 10 | 11 | 12 | 13 | 14 | 15 => by decide
  | _ + 16 => by simp [Nat.digitChar]

theorem bar_not_mem_newBranch (n : UInt32) : '|' ∉ newBranch n := by
  refine List.not_mem_append (by decide) fun h => ?_
  obtain ⟨d, hd⟩ := mem_paddedHex h
  exact bar_ne_digitChar d hd

end Hexadecimal

/-- The nanoseconds within its second, of a reading of the clock in nanoseconds; a
reading from before the epoch counts as none. -/
def subsecNanos (reading : Int) : UInt32 := UInt32.ofNat (reading.toNat % 10 ^ 9)

/-- A request as it leaves when its hiding reads the clock. -/
def hiddenAt (U : Lowering) (V : Uppering) (reading : Int) (identity : SbcIdentity) (transport : Transport)
    (raw : List Char) : Except Error (List Char) :=
  applyTopologyHidingOutbound U V (subsecNanos reading) raw identity (outboundTransportName transport)

/-- An identity on one line, whose address has no sign of a parameter in it. -/
structure Announced (identity : SbcIdentity) : Prop extends OneLine identity where
  ip_sign : '=' ∉ identity.publicIp

/-- What is done under the branch of a request leaves the transaction of another
one alone: its entry, while it is alive, and its attempt. -/
structure LeavesAlone (U : Lowering) (other first : List Char) : Prop where
  branches : topViaBranch U other ≠ topViaBranch U first
  recorded : ∀ (cache : Cache) (now : Nat) (what : List Char) (raw : Bytes) (dest : SocketAddr)
    (transport : Transport) (replyTx : Option Nat) {branch branch' : List Char} (method method' : List Char)
    {tx : ClientTx.Tx}, topViaBranch U first = some branch → topViaBranch U other = some branch' →
      tracked U raw transport = some (branch', method') → cache.lookup (key branch method) = some tx →
      now < tx.giveUpAt → (recordSent U cache now what raw dest transport replyTx).2.lookup (key branch method) = some tx
  answered : ∀ (cache : Cache) {branch branch' : List Char} (method method' : List Char) (status : UInt16),
    topViaBranch U first = some branch → topViaBranch U other = some branch' →
      (answeredParts cache branch' method' status).2.lookup (key branch method) = cache.lookup (key branch method)
  attempt : ∀ (call : B2buaCall) (a b : InviteAttempt) (cseq : UInt32), a.branch = topViaBranch U first →
    b ∈ call.inviteAttempts → b.branch = topViaBranch U other →
      classifyInviteResponse call (topViaBranch U other) cseq ≠ .stale (some a) ∧
      (classifyInviteResponse call (topViaBranch U other) cseq = .current → call.inviteAttempts.getLast? ≠ some a)

section Entries

variable {U : Lowering} {branch branch' : List Char}

theorem key_ne (h : '|' ∉ branch) (h' : '|' ∉ branch') (hne : branch ≠ branch') (method method' : List Char) :
    key branch method ≠ key branch' method' := by
  intro heq
  have hfront {b : List Char} (hb : '|' ∉ b) (m : List Char) : splitOnce '|' (key b m) = some (b, ClientTx.toAsciiUppercase m) :=
    splitOnce_append hb _
  have hpair := (hfront h method).symm.trans ((congrArg _ heq).trans (hfront h' method'))
  exact hne (congrArg Prod.fst (Option.some.inj hpair))

theorem lookup_makeRoom {cache : Cache} {k : List Char} {tx : ClientTx.Tx} {now : Nat}
    (h : cache.lookup k = some tx) (hlive : now < tx.giveUpAt) : (makeRoom cache now).lookup k = some tx := by
  rw [makeRoom]
  split
  next =>
    rw [KeyedTable.lookup_sweep, h]
    exact if_pos hlive
  next => exact h

theorem lookup_afterCancel {cache : Cache} {k : List Char} (hne : ∀ method, k ≠ key branch' method)
    (method : List Char) : (afterCancel cache branch' method).lookup k = cache.lookup k := by
  rw [afterCancel]
  split
  next => exact AList.lookup_erase_ne (hne _)
  next => rfl

/-- Recording a request under another branch leaves a live entry alone. -/
theorem lookup_recordSent {cache : Cache} {k : List Char} {tx : ClientTx.Tx} {now : Nat} {raw : Bytes}
    {transport : Transport} {method : List Char} (hne : ∀ method, k ≠ key branch' method)
    (htracked : tracked U raw transport = some (branch', method)) (h : cache.lookup k = some tx)
    (hlive : now < tx.giveUpAt) (what : List Char) (dest : SocketAddr) (replyTx : Option Nat) :
    (recordSent U cache now what raw dest transport replyTx).2.lookup k = some tx := by
  have hroom : (makeRoom (afterCancel cache branch' method) now).lookup k = some tx :=
    lookup_makeRoom ((lookup_afterCancel hne method).trans h) hlive
  rcases recordSent_cases U cache now what raw dest transport replyTx with ⟨hnone, -⟩ | ⟨b, m, hsome, hcase⟩
  · cases htracked.symm.trans hnone
  · obtain ⟨rfl, rfl⟩ : branch' = b ∧ method = m := by
      simpa using Option.some.inj (htracked.symm.trans hsome)
    rcases hcase with hrefused | hinserted
    · rw [hrefused]
      exact hroom
    · rw [hinserted]
      exact (AList.lookup_insert_ne (hne _)).trans hroom

theorem lookup_answeredParts {cache : Cache} {k : List Char} (hne : ∀ method, k ≠ key branch' method)
    (method : List Char) (status : UInt16) :
    (answeredParts cache branch' method status).2.lookup k = cache.lookup k := by
  simp only [answeredParts]
  split
  next =>
    split
    next => exact AList.lookup_erase_ne (hne _)
    next => rfl
  next => rfl

/-- A response under a branch that an attempt of the call has is its attempt's. -/
theorem classify_remembered {call : B2buaCall} {a b : InviteAttempt} {branch : Option (List Char)}
    (hsome : branch ≠ none) (hb : b ∈ call.inviteAttempts) (hbranch : b.branch = branch) (ha : a.branch ≠ branch)
    (cseq : UInt32) :
    classifyInviteResponse call branch cseq ≠ .stale (some a) ∧
      (classifyInviteResponse call branch cseq = .current → call.inviteAttempts.getLast? ≠ some a) := by
  obtain ⟨older, live, hcall⟩ : ∃ older live, call.inviteAttempts = older ++ [live] :=
    (List.eq_nil_or_concat' _).resolve_left (List.ne_nil_of_mem hb)
  have holder : (older ++ [live]).reverse.drop 1 = older.reverse := by simp
  rw [hcall] at hb ⊢
  simp only [classifyInviteResponse, hcall, List.getLast?_concat, holder]
  by_cases hlive : live.branch = branch
  · have hnot : live ≠ a := fun he => ha (he ▸ hlive)
    simp only [hsome, hlive, ne_eq, not_false_eq_true, and_self, decide_true, if_true]
    exact ⟨fun he => (by cases he), fun _ he => hnot (Option.some.inj he)⟩
  · -- the attempt is an older one, so one of its branch is found
    have hmem : b ∈ older.reverse := by
      rcases List.mem_append.mp hb with h | h
      · exact List.mem_reverse.mpr h
      · rw [List.mem_singleton.mp h] at hbranch
        exact absurd hbranch hlive
    obtain ⟨c, hc⟩ : ∃ c, (older.reverse.find? fun c => decide (branch ≠ none ∧ c.branch = branch)) = some c := by
      rw [← Option.isSome_iff_exists, List.find?_isSome]
      exact ⟨b, hmem, by simpa using ⟨hsome, hbranch⟩⟩
    have hsame := List.find?_some hc
    rw [decide_eq_true_eq] at hsame
    simp only [hlive, and_false, decide_false, Bool.false_eq_true, if_false, hc]
    refine ⟨fun he => ha ?_, fun he => (by cases he)⟩
    cases he
    exact hsame.2

theorem leavesAlone_of_ne {first other : List Char} (hfirst : topViaBranch U first = some branch)
    (hother : topViaBranch U other = some branch') (h : '|' ∉ branch) (h' : '|' ∉ branch') (hne : branch ≠ branch') :
    LeavesAlone U other first := by
  have hkeys (method : List Char) : ∀ method', key branch method ≠ key branch' method' := key_ne h h' hne method
  constructor
  case branches =>
    rw [hfirst, hother]
    exact fun heq => hne (Option.some.inj heq).symm
  case recorded =>
    intro cache now what raw dest transport replyTx b b' method method' tx hb hb' htracked hlookup hlive
    cases hfirst.symm.trans hb
    cases hother.symm.trans hb'
    exact lookup_recordSent (hkeys method) htracked hlookup hlive what dest replyTx
  case answered =>
    intro cache b b' method method' status hb hb'
    cases hfirst.symm.trans hb
    cases hother.symm.trans hb'
    exact lookup_answeredParts (hkeys method) method' status
  case attempt =>
    intro call a b cseq ha hb hbranch
    apply classify_remembered _ hb hbranch
    · rw [ha, hfirst, hother]
      exact fun heq => hne (Option.some.inj heq)
    · rw [hother]
      exact Option.some_ne_none _

end Entries

section Hidden

variable {U : Lowering} {V : Uppering} {identity : SbcIdentity}

/-- The value of the Via up to its branch. -/
def viaFront (identity : SbcIdentity) (transport : Transport) : List Char :=
  " SIP/2.0/".toList ++ (outboundTransportName transport ++ ' ' :: (identity.publicIp ++
    ':' :: (showNat identity.sipPort.toNat ++ [';'])))

theorem viaHeader_eq (identity : SbcIdentity) (transport : Transport) (branch : List Char) :
    ' ' :: identity.viaHeader V (outboundTransportName transport) branch =
      viaFront identity transport ++ (branchText ++ (branch ++ [])) := by
  have hassoc (version name ip port label : List Char) :
      ' ' :: (version ++ name ++ ' ' :: ip ++ ':' :: port ++ (';' :: label) ++ branch) =
        (' ' :: version) ++ (name ++ ' ' :: (ip ++ ':' :: (port ++ [';']))) ++ (label ++ (branch ++ [])) := by
    simp
  unfold SbcIdentity.viaHeader
  rw [toUppercase_transport]
  exact hassoc _ _ _ _ _

theorem sign_not_mem_viaFront (h : Announced identity) (transport : Transport) :
    '=' ∉ viaFront identity transport := by
  have hname : '=' ∉ outboundTransportName transport := by cases transport <;> decide
  have hport : '=' ∉ showNat identity.sipPort.toNat := by
    intro hmem
    obtain ⟨d, hd⟩ := mem_toDigits (by decide) hmem
    exact sign_ne_digitChar d hd
  have hend : '=' ∉ showNat identity.sipPort.toNat ++ [';'] := List.not_mem_append hport (by decide)
  have haddress : '=' ∉ identity.publicIp ++ ':' :: (showNat identity.sipPort.toNat ++ [';']) :=
    List.not_mem_append h.ip_sign (List.not_mem_cons_of_ne_of_not_mem (by decide) hend)
  exact List.not_mem_append (by decide)
    (List.not_mem_append hname (List.not_mem_cons_of_ne_of_not_mem (by decide) haddress))

theorem lf_not_mem_newBranch (n : UInt32) : '\n' ∉ newBranch n := by
  intro h
  cases (newBranch_plain n).not_blank h

/-- The branch that was generated is read off the request that leaves. -/
theorem topViaBranch_hidden (h : Announced identity) (n : UInt32) (transport : Transport) {m : RawSipMessage}
    (hm : Canonical m) :
    topViaBranch U (render (hideRequest U V (newBranch n) identity (outboundTransportName transport) m)) =
      some (newBranch n) := by
  have hcanonical := OutboundInvite.canonical_hiding (U := U) (V := V) hm h.toOneLine n transport
  have hheaders := hideRequest_headers (U := U) (V := V) (newBranch n) identity (outboundTransportName transport) m
  generalize hideRequest U V (newBranch n) identity (outboundTransportName transport) m = hidden at hcanonical hheaders
  have hlines : ∀ l ∈ hidden.headers, CrlfLines.OneLine l := fun l hl =>
    oneLine_of_not_lf (hcanonical.headers l hl).one_line
  have hsplit : topViaBranch U (render hidden) =
      viaBranchIn U (hidden.headers ++ splitCrlf ('\r' :: '\n' :: hidden.body)) := by
    have hends : joinLines hidden.startLine hidden.headers ++ crlfCrlf ++ hidden.body =
        joinLines hidden.startLine hidden.headers ++ '\r' :: '\n' :: ('\r' :: '\n' :: hidden.body) :=
      List.append_assoc _ _ _
    rw [topViaBranch, render_eq, hends, splitCrlf_crlf, splitCrlf_joinLines (oneLine_of_not_lf hcanonical.no_lf) hlines]
    rfl
  have hrecord : toLowercase U (trim "Record-Route".toList) = "record-route".toList := rfl
  have hvia : toLowercase U (trim "Via".toList) = "via".toList := rfl
  have hcolon : ':' ∉ "Record-Route".toList ∧ ':' ∉ "Via".toList := by decide
  rw [hsplit, hheaders, List.cons_append, List.cons_append, viaBranchIn,
    if_neg (List.append_ne_nil_of_left_ne_nil (by decide) _), splitOnce_append hcolon.1]
  dsimp only
  rw [hrecord, if_neg (by decide), viaBranchIn, if_neg (List.append_ne_nil_of_left_ne_nil (by decide) _),
    splitOnce_append hcolon.2]
  dsimp only
  rw [hvia, if_pos (.inl rfl), viaHeader_eq]
  exact branchOf_append (sign_not_mem_viaFront h transport) (newBranch_plain n).1
    (fun c hc => endsBranch_newBranch hc) fun c hc => by cases hc

theorem hiddenAt_eq (reading : Int) (identity : SbcIdentity) (transport : Transport) {raw : List Char}
    {m : RawSipMessage} (hparse : parse raw = .ok m) (hrequest : isRequest m = true) :
    hiddenAt U V reading identity transport raw =
      .ok (render (hideRequest U V (newBranch (subsecNanos reading)) identity (outboundTransportName transport) m)) := by
  rw [hiddenAt, applyTopologyHidingOutbound, hparse]
  exact if_pos hrequest

theorem topViaBranch_hiddenAt (h : Announced identity) {reading : Int} {transport : Transport} {raw hidden : List Char}
    {m : RawSipMessage} (hparse : parse raw = .ok m) (hrequest : isRequest m = true)
    (hhidden : hiddenAt U V reading identity transport raw = .ok hidden) :
    topViaBranch U hidden = some (newBranch (subsecNanos reading)) := by
  rw [hiddenAt_eq reading identity transport hparse hrequest] at hhidden
  rw [← Except.ok.inj hhidden]
  exact topViaBranch_hidden h _ transport (parse_canonical hparse)

/-- The branch repeats every second. -/
theorem newBranch_subsecNanos_iff (r r' : Int) :
    newBranch (subsecNanos r) = newBranch (subsecNanos r') ↔ max r 0 ≡ max r' 0 [ZMOD 10 ^ 9] := by
  have hnanos (r : Int) : ((subsecNanos r).toNat : Int) = max r 0 % 10 ^ 9 := by
    rw [subsecNanos, UInt32.toNat_ofNat']
    omega
  rw [Int.ModEq, ← hnanos, ← hnanos]
  constructor
  · intro h
    rw [newBranch_inj h]
  · intro h
    rw [UInt32.toNat_inj.mp (Int.ofNat.inj h)]

/-- Of two requests that are relayed each leaves the other's transaction alone
exactly when the clock did not show the same part of a second. -/
theorem relayed_requests_apart_iff {identity identity' : SbcIdentity} (h : Announced identity)
    (h' : Announced identity') {reading reading' : Int} {transport transport' : Transport}
    {raw raw' hidden hidden' : List Char} {m m' : RawSipMessage} (hparse : parse raw = .ok m)
    (hparse' : parse raw' = .ok m') (hrequest : isRequest m = true) (hrequest' : isRequest m' = true)
    (hhidden : hiddenAt U V reading identity transport raw = .ok hidden)
    (hhidden' : hiddenAt U V reading' identity' transport' raw' = .ok hidden') :
    LeavesAlone U hidden' hidden ∧ LeavesAlone U hidden hidden' ↔ ¬max reading 0 ≡ max reading' 0 [ZMOD 10 ^ 9] := by
  have hbranch := topViaBranch_hiddenAt h hparse hrequest hhidden
  have hbranch' := topViaBranch_hiddenAt h' hparse' hrequest' hhidden'
  rw [← newBranch_subsecNanos_iff]
  constructor
  · rintro ⟨halone, -⟩ heq
    exact halone.branches (hbranch'.trans ((congrArg some heq.symm).trans hbranch.symm))
  · intro hne
    exact ⟨leavesAlone_of_ne hbranch hbranch' (bar_not_mem_newBranch _) (bar_not_mem_newBranch _) hne,
      leavesAlone_of_ne hbranch' hbranch (bar_not_mem_newBranch _) (bar_not_mem_newBranch _) (Ne.symm hne)⟩

end Hidden

section Sample

def sampleIdentity : SbcIdentity := ⟨"203.0.113.1".toList, "sbc".toList, 5060, false⟩

theorem announced_sample : Announced sampleIdentity := ⟨⟨by decide, by decide⟩, by decide⟩

def sampleRaw : List Char := "BYE sip:b SIP/2.0\r\nCSeq: 2 BYE\r\n\r\n".toList

def sampleRequest : RawSipMessage := ⟨"BYE sip:b SIP/2.0".toList, ["CSeq: 2 BYE".toList], []⟩

theorem parse_sampleRaw : parse sampleRaw = .ok sampleRequest := rfl

def sampleHidden (reading : Int) : List Char :=
  render (hideRequest (fun _ _ _ => []) (fun _ => []) (newBranch (subsecNanos reading)) sampleIdentity "UDP".toList
    sampleRequest)

theorem hiddenAt_sample (reading : Int) :
    hiddenAt (fun _ _ _ => []) (fun _ => []) reading sampleIdentity .udp sampleRaw = .ok (sampleHidden reading) :=
  hiddenAt_eq reading sampleIdentity .udp parse_sampleRaw (by decide)

theorem relayed_requests_apart_sample :
    LeavesAlone (fun _ _ _ => []) (sampleHidden 7) (sampleHidden 5) ∧
        LeavesAlone (fun _ _ _ => []) (sampleHidden 5) (sampleHidden 7) ↔
      ¬max 5 0 ≡ max 7 0 [ZMOD 10 ^ 9] :=
  relayed_requests_apart_iff announced_sample announced_sample parse_sampleRaw parse_sampleRaw (by decide) (by decide)
    (hiddenAt_sample 5) (hiddenAt_sample 7)

/-- Two requests that are relayed a second apart. -/
theorem second_later_not_apart :
    hiddenAt (fun _ _ _ => []) (fun _ => []) 5 sampleIdentity .udp sampleRaw = .ok (sampleHidden 5) ∧
      hiddenAt (fun _ _ _ => []) (fun _ => []) (5 + 10 ^ 9) sampleIdentity .udp sampleRaw =
        .ok (sampleHidden (5 + 10 ^ 9)) ∧
      ¬LeavesAlone (fun _ _ _ => []) (sampleHidden (5 + 10 ^ 9)) (sampleHidden 5) := by
  refine ⟨hiddenAt_sample 5, hiddenAt_sample (5 + 10 ^ 9), fun h => h.branches ?_⟩
  have hbranch (reading : Int) :
      topViaBranch (fun _ _ _ => []) (sampleHidden reading) = some (newBranch (subsecNanos reading)) :=
    topViaBranch_hiddenAt announced_sample parse_sampleRaw (by decide) (hiddenAt_sample reading)
  rw [hbranch, hbranch]
  rfl

end Sample

end NixiSbc.HiddenBranches
