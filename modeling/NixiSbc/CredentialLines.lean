import Mathlib.Data.List.InsertIdx
import NixiSbc.CrlfLines
import NixiSbc.InviteTexts

namespace NixiSbc.CredentialLines

open RawSip TextScan TextFields TextLines TextWords CrlfLines SipRender SipEdit InviteTexts Trunks

/-- The header lines of a message, up to the first empty one. -/
def headerLines (raw : List Char) : List (List Char) :=
  ((splitCrlf raw).drop 1).takeWhile (· ≠ [])

def isCredential (line : List Char) : Bool := proxyAuthorization <+: toAsciiLowercase line

/-- The message has this line, with credentials for a proxy, in its header. -/
def Carries (raw line : List Char) : Prop := line ∈ headerLines raw ∧ isCredential line = true

section Blocks

theorem takeWhile_stop (front rest : List (List Char)) :
    (front ++ [] :: rest).takeWhile (· ≠ []) = front.takeWhile (· ≠ []) := by
  induction front with
  | nil => rfl
  | cons l ls ih =>
      rw [List.cons_append, List.takeWhile_cons, List.takeWhile_cons, ih]

theorem findSub_split {raw : List Char} {pos : Nat} (h : findSub crlfCrlf raw = some pos) :
    raw = raw.take pos ++ '\r' :: '\n' :: '\r' :: '\n' :: raw.drop (pos + 4) := by
  obtain ⟨-, ⟨tail, htail⟩, -⟩ := findSub_eq_some h
  have hdrop : raw.drop (pos + 4) = tail := by
    rw [← List.drop_drop, ← htail]
    rfl
  rw [hdrop]
  nth_rewrite 1 [← List.take_append_drop pos raw]
  rw [← htail]
  rfl

/-- The header lines are those of the header block. -/
theorem headerLines_head (raw : List Char) :
    headerLines raw = ((splitCrlf (splitHead raw).1).drop 1).takeWhile (· ≠ []) := by
  unfold splitHead
  split
  next pos hpos =>
    have hsplit : splitCrlf raw = splitCrlf (raw.take pos) ++ [] :: splitCrlf (raw.drop (pos + 4)) := by
      nth_rewrite 1 [findSub_split hpos]
      rw [splitCrlf_crlf]
      rfl
    rw [headerLines, hsplit, splitCrlf_eq (raw.take pos), List.cons_append, List.drop_one, List.drop_one,
      List.tail_cons, List.tail_cons, takeWhile_stop]
  next => rfl

theorem headerLines_joinHead (first : List Char) (rest : List (List Char)) (body : List Char) :
    headerLines (joinHead (first :: rest) body) =
      (((first :: rest).flatMap splitCrlf).drop 1).takeWhile (· ≠ []) := by
  have hsplit : splitCrlf (joinHead (first :: rest) body) =
      (first :: rest).flatMap splitCrlf ++ [] :: splitCrlf body := by
    have hjoin : joinHead (first :: rest) body =
        joinLines first rest ++ '\r' :: '\n' :: ('\r' :: '\n' :: body) := by
      rw [joinHead, List.append_assoc]
      rfl
    rw [hjoin, splitCrlf_crlf, splitCrlf_join]
    rfl
  rw [headerLines, hsplit, List.flatMap_cons, splitCrlf_eq first, List.cons_append, List.cons_append,
    List.drop_one, List.drop_one, List.tail_cons, List.tail_cons, takeWhile_stop]

/-- Lines without line ends in them are the header lines that they make. -/
theorem headerLines_lines {first : List Char} {rest : List (List Char)} (body : List Char)
    (hfirst : OneLine first) (hrest : ∀ l ∈ rest, OneLine l) :
    headerLines (joinHead (first :: rest) body) = rest.takeWhile (· ≠ []) := by
  rw [headerLines_joinHead, flatMap_splitCrlf (List.forall_mem_cons.mpr ⟨hfirst, hrest⟩)]
  rfl

end Blocks

section Lower

variable {U : Lowering} {line : List Char}

theorem toLower_ascii {c : Char} (h : c.toLower.toNat < 128) : c.toNat < 128 := by
  unfold Char.toLower at h
  split at h
  next hupper =>
    have hle : c.val ≤ 90 := hupper.2
    exact Nat.lt_of_le_of_lt (UInt32.le_iff_toNat_le.mp hle) (by decide)
  next => exact h

theorem forall_ascii {p : Char → Prop} (h : ∀ n < 128, p (Char.ofNat n)) {c : Char} (hc : c.toNat < 128) :
    p c := Char.ofNat_toNat c ▸ h c.toNat hc

theorem colon_of_lower {c : Char} (h : c.toLower = ':') : c = ':' := by
  have hcolon : c.toLower = ':' → c = ':' :=
    forall_ascii (p := fun c => c.toLower = ':' → c = ':') (by decide +kernel) (toLower_ascii (h ▸ by decide))
  exact hcolon h

/-- What stands before the colon in a line that begins with a label. -/
theorem exists_label {pattern : List Char} (h : pattern ++ [':'] <+: toAsciiLowercase line) :
    ∃ label rest, line = label ++ ':' :: rest ∧ toAsciiLowercase label = pattern := by
  obtain ⟨tail, htail⟩ := h
  have hsplit : toAsciiLowercase line = pattern ++ ':' :: tail := by
    rw [← htail, List.append_assoc, List.singleton_append]
  obtain ⟨label, after, rfl, hlabel, hafter⟩ := List.map_eq_append_iff.mp hsplit
  obtain ⟨c, rest, rfl, hc, -⟩ := List.map_eq_cons_iff.mp hafter
  exact ⟨label, rest, by rw [colon_of_lower hc], hlabel⟩

/-- What follows does not matter to ASCII. -/
theorem lowerFrom_append (before : List Char) {text : List Char} (rest : List Char)
    (h : ∀ c ∈ text, isAscii c = true) :
    lowerFrom U before (text ++ rest) = toAsciiLowercase text ++ lowerFrom U (before ++ text) rest := by
  induction text generalizing before with
  | nil => rw [List.append_nil]; rfl
  | cons c cs ih =>
      rw [List.cons_append, lowerFrom, if_pos (of_decide_eq_true (h c List.mem_cons_self)),
        ih (before ++ [c]) fun d hd => h d (List.mem_cons_of_mem _ hd), List.append_assoc before,
        List.singleton_append]
      rfl

/-- What a line begins with in ASCII it begins with in any lowering. -/
theorem prefix_toLowercase {pattern : List Char} (hpattern : pattern.all isAscii = true)
    (h : pattern <+: toAsciiLowercase line) : pattern <+: toLowercase U line := by
  obtain ⟨tail, htail⟩ := h
  obtain ⟨front, rest, rfl, hfront, -⟩ := List.map_eq_append_iff.mp htail.symm
  have hascii : ∀ c ∈ front, isAscii c = true := by
    intro c hc
    have hlower : c.toLower ∈ pattern := hfront ▸ List.mem_map_of_mem hc
    exact decide_eq_true (toLower_ascii (of_decide_eq_true (List.all_eq_true.mp hpattern _ hlower)))
  rw [toLowercase, lowerFrom_append [] rest hascii]
  exact ⟨lowerFrom U ([] ++ front) rest, congrArg (· ++ _) hfront.symm⟩

theorem credential_lower (h : isCredential line = true) : proxyAuthorization <+: toLowercase U line :=
  prefix_toLowercase (by decide) (of_decide_eq_true h)

/-- The first letter of a line with credentials. -/
theorem head_of_credential (h : isCredential line = true) : ∃ c rest, line = c :: rest ∧ c.toLower = 'p' := by
  cases line with
  | nil => exact absurd h (by decide)
  | cons c rest =>
      have hprefix : proxyAuthorization <+: c.toLower :: toAsciiLowercase rest := of_decide_eq_true h
      exact ⟨c, rest, rfl, (List.cons_prefix_cons.mp hprefix).1.symm⟩

theorem not_credential_of_head {c : Char} {rest : List Char} (h : c.toLower ≠ 'p') :
    isCredential (c :: rest) = false := by
  by_contra hcred
  obtain ⟨c', rest', heq, hc⟩ := head_of_credential (Bool.eq_true_of_not_eq_false hcred)
  cases heq
  exact h hc

/-- A line keeps its first letter when its end is exchanged, so a Via line that
is edited does not turn into one with credentials. -/
theorem not_credential_of_via {edited : List Char} (hvia : isVia U line = true)
    (hhead : edited.head? = line.head?) : isCredential edited = false := by
  by_contra hcred
  obtain ⟨c, rest, rfl, hc⟩ := head_of_credential (Bool.eq_true_of_not_eq_false hcred)
  obtain ⟨tail, rfl⟩ := List.head?_eq_some_iff.mp hhead.symm
  have hascii : c.toNat < 128 := toLower_ascii (by rw [hc]; decide)
  have hlower : toLowercase U (c :: tail) = 'p' :: lowerFrom U [c] tail := by
    rw [toLowercase, lowerFrom, if_pos hascii, hc]
    rfl
  rw [isVia, decide_eq_true_iff, hlower] at hvia
  rcases hvia with hvia | hvia
  · exact absurd (List.cons_prefix_cons.mp hvia).1 (by decide)
  · exact absurd (List.cons_prefix_cons.mp hvia).1 (by decide)

end Lower

section Edits

variable {U : Lowering} {fresh line edited : List Char}

/-- A text with no part of a line end in it. -/
structure Plain (text : List Char) : Prop where
  no_cr : '\r' ∉ text
  no_lf : '\n' ∉ text

/-- A branch as the SBC makes them: not empty, and on one line. -/
structure Branch (fresh : List Char) : Prop extends Plain fresh where
  ne_nil : fresh ≠ []

theorem plain_of_not_blank {text : List Char} (h : ∀ c ∈ text, isWhiteSpace c = false) : Plain text := by
  constructor
  · intro hc
    cases h _ hc
  · intro hc
    cases h _ hc

theorem Plain.append {text rest : List Char} (h : Plain text) (hrest : Plain rest) : Plain (text ++ rest) :=
  ⟨List.not_mem_append h.no_cr hrest.no_cr, List.not_mem_append h.no_lf hrest.no_lf⟩

theorem Plain.oneLine {text : List Char} (h : Plain text) : OneLine text := oneLine_of_not_lf h.no_lf

theorem branch_newBranch (draw : UInt64) : Branch (newBranch draw) := by
  refine ⟨Plain.append ⟨by decide, by decide⟩ (plain_of_not_blank ?_), List.cons_ne_nil _ _⟩
  intro c hc
  obtain ⟨d, rfl⟩ := mem_showHex hc
  exact isWhiteSpace_digitChar d

/-- A line is kept, or it gives way to one line without credentials. -/
inductive Edited (line edited : List Char) : Prop
  | kept (h : edited = line)
  | replaced (hne : line ≠ []) (hone : OneLine edited) (hno : isCredential edited = false)

theorem replaceBranch_oneLine (hfresh : Branch fresh) (h : replaceBranch fresh line = some edited)
    (hline : OneLine line) : OneLine edited := by
  obtain ⟨pos, -, rfl⟩ := Option.map_eq_some_iff.mp h
  refine OneLine.append ?_ hfresh.ne_nil hfresh.no_cr hfresh.no_lf ?_
  · exact hline.of_infix (List.take_prefix _ _).isInfix
  · exact hline.of_infix (((List.dropWhile_suffix _).trans (List.drop_suffix _ _)).isInfix)

theorem replaceBranch_head (h : replaceBranch fresh line = some edited) : edited.head? = line.head? := by
  obtain ⟨pos, hpos, rfl⟩ := Option.map_eq_some_iff.mp h
  obtain ⟨hle, hat, -⟩ := findSub_eq_some hpos
  cases line with
  | nil =>
      rw [List.drop_nil, List.prefix_nil] at hat
      exact absurd hat (by decide)
  | cons c rest => rfl

theorem ne_nil_of_isVia (h : isVia U line = true) : line ≠ [] := by
  rintro rfl
  rw [isVia, decide_eq_true_iff] at h
  rcases h with h | h
  · cases List.prefix_nil.mp h
  · cases List.prefix_nil.mp h

theorem edited_replaceBranch (hfresh : Branch fresh) (hline : OneLine line) (hvia : isVia U line = true)
    (h : replaceBranch fresh line = some edited) : Edited line edited :=
  .replaced (ne_nil_of_isVia hvia) (replaceBranch_oneLine hfresh h hline)
    (not_credential_of_via hvia (replaceBranch_head h))

theorem edited_appendBranch (hfresh : Branch fresh) (hline : OneLine line) (hvia : isVia U line = true) :
    Edited line (line ++ ";branch=".toList ++ fresh) := by
  have hbranch : Plain (";branch=".toList ++ fresh) := Plain.append ⟨by decide, by decide⟩ hfresh.toPlain
  have hne : ";branch=".toList ++ fresh ≠ [] := List.append_ne_nil_of_right_ne_nil _ hfresh.ne_nil
  refine .replaced (ne_nil_of_isVia hvia) ?_ (not_credential_of_via hvia ?_)
  · have hone := OneLine.append hline hne hbranch.no_cr hbranch.no_lf oneLine_nil
    rwa [List.append_nil, ← List.append_assoc] at hone
  · rw [List.append_assoc, List.head?_append_of_ne_nil line (ne_nil_of_isVia hvia)]

theorem edited_bumpCseq (hcseq : "cseq:".toList <+: toLowercase U line) : Edited line (bumpCseq line) := by
  have hne : line ≠ [] := by
    rintro rfl
    cases List.prefix_nil.mp hcseq
  unfold bumpCseq
  split
  next num method more hwords =>
    split
    next n hn =>
      refine .replaced hne ?_ ?_
      · have hmethod : IsWord method :=
          isWord_of_mem_words (hwords ▸ List.mem_cons_of_mem _ List.mem_cons_self)
        exact OneLine.append_cons (oneLine_of_not_lf (List.not_mem_append (by decide) (not_mem_showNat _)))
          (by decide) (by decide) (plain_of_not_blank hmethod.2).oneLine
      · rfl
    next => exact .kept rfl
  next => exact .kept rfl

/-- Credentials in the edited lines were in the lines. -/
theorem mem_of_edited {ls es : List (List Char)} (h : List.Forall₂ Edited ls es) {line : List Char}
    (hline : line ∈ es.takeWhile (· ≠ [])) (hcred : isCredential line = true) :
    line ∈ ls.takeWhile (· ≠ []) := by
  induction h with
  | nil => exact hline
  | @cons l e ls es hedit _ ih =>
      rw [List.takeWhile_cons] at hline ⊢
      split at hline
      next hne =>
        cases hedit with
        | kept heq =>
            rw [if_pos (heq ▸ hne)]
            rcases List.mem_cons.mp hline with rfl | hline
            · exact heq ▸ List.mem_cons_self
            · exact List.mem_cons_of_mem _ (ih hline)
        | replaced hl _ hno =>
            rw [if_pos (decide_eq_true hl)]
            rcases List.mem_cons.mp hline with rfl | hline
            · rw [hno] at hcred
              cases hcred
            · exact List.mem_cons_of_mem _ (ih hline)
      next => exact absurd hline List.not_mem_nil

theorem oneLine_of_edited {ls es : List (List Char)} (h : List.Forall₂ Edited ls es)
    (hls : ∀ l ∈ ls, OneLine l) : ∀ e ∈ es, OneLine e := by
  induction h with
  | nil => exact hls
  | cons hedit _ ih =>
      rw [List.forall_mem_cons] at hls ⊢
      refine ⟨?_, ih hls.2⟩
      cases hedit with
      | kept heq => exact heq ▸ hls.1
      | replaced _ hone _ => exact hone

theorem edited_renewLines (hfresh : Branch fresh) (viaDone : Bool) {ls : List (List Char)}
    (hls : ∀ l ∈ ls, OneLine l) : List.Forall₂ Edited ls (renewLines U fresh viaDone ls) := by
  induction ls generalizing viaDone with
  | nil => exact .nil
  | cons line rest ih =>
      rw [List.forall_mem_cons] at hls
      rw [renewLines]
      split
      next hvia =>
        refine .cons ?_ (ih true hls.2)
        have hvia : isVia U line = true := (Bool.and_eq_true_iff.mp hvia).2
        cases hedit : replaceBranch fresh line with
        | none => exact edited_appendBranch hfresh hls.1 hvia
        | some edited => exact edited_replaceBranch hfresh hls.1 hvia hedit
      next =>
        split
        next hcseq => exact .cons (edited_bumpCseq hcseq) (ih viaDone hls.2)
        next => exact .cons (.kept rfl) (ih viaDone hls.2)

theorem edited_refl (ls : List (List Char)) : List.Forall₂ Edited ls ls :=
  List.forall₂_same.mpr fun _ _ => .kept rfl

theorem edited_refreshVia (hfresh : Branch fresh) {ls : List (List Char)} (hls : ∀ l ∈ ls, OneLine l) :
    List.Forall₂ Edited ls (refreshVia U fresh ls) := by
  induction ls with
  | nil => exact .nil
  | cons line rest ih =>
      rw [List.forall_mem_cons] at hls
      rw [refreshVia]
      split
      next hvia =>
        refine .cons ?_ (edited_refl rest)
        cases hedit : replaceBranch fresh line with
        | none => exact .kept rfl
        | some edited => exact edited_replaceBranch hfresh hls.1 hvia hedit
      next =>
        split
        next => exact .cons (.kept rfl) (edited_refl rest)
        next => exact .cons (.kept rfl) (ih hls.2)

end Edits

section Builders

variable {U : Lowering} {fresh raw line : List Char}

/-- A new transaction carries what the INVITE carried. -/
theorem carries_renew (hfresh : Branch fresh) (h : Carries (renewInviteTransaction U fresh raw) line) :
    Carries raw line := by
  obtain ⟨hline, hcred⟩ := h
  refine ⟨?_, hcred⟩
  rw [headerLines_head raw]
  unfold renewInviteTransaction at hline
  have hone : ∀ l ∈ splitCrlf (splitHead raw).1, OneLine l := fun l hl => oneLine_of_mem_splitCrlf hl
  cases hsplit : splitCrlf (splitHead raw).1 with
  | nil => exact absurd hsplit (splitCrlf_ne_nil _)
  | cons first rest =>
      rw [hsplit, List.forall_mem_cons] at hone
      dsimp only at hline
      rw [hsplit] at hline
      have hedited := edited_renewLines (U := U) hfresh false hone.2
      rw [headerLines_lines _ hone.1 (oneLine_of_edited hedited hone.2)] at hline
      exact mem_of_edited hedited hline hcred

/-- What is injected is all that an INVITE carries. -/
theorem carries_inject {value : List Char} (h : Carries (injectProxyAuthIntoInvite U fresh raw value) line) :
    line ∈ splitCrlf ("Proxy-Authorization: ".toList ++ value) := by
  obtain ⟨hline, hcred⟩ := h
  unfold injectProxyAuthIntoInvite at hline
  dsimp only at hline
  generalize (splitHead (renewInviteTransaction U fresh raw)).2 = body at hline
  have hall : ∀ l ∈ (splitCrlf (splitHead (renewInviteTransaction U fresh raw)).1).filter
      (fun l => ¬ proxyAuthorization <+: toLowercase U l), OneLine l ∧ isCredential l = false := by
    intro l hl
    obtain ⟨hmem, hno⟩ := List.mem_filter.mp hl
    refine ⟨oneLine_of_mem_splitCrlf hmem, ?_⟩
    by_contra hl
    exact of_decide_eq_true hno (credential_lower (Bool.eq_true_of_not_eq_false hl))
  generalize (splitCrlf (splitHead (renewInviteTransaction U fresh raw)).1).filter
    (fun l => ¬ proxyAuthorization <+: toLowercase U l) = kept at hline hall
  have hmem : ∀ l ∈ kept.insertIdx (insertPos U kept) ("Proxy-Authorization: ".toList ++ value),
      l = "Proxy-Authorization: ".toList ++ value ∨ l ∈ kept := fun l hl => List.eq_or_mem_of_mem_insertIdx hl
  generalize kept.insertIdx (insertPos U kept) ("Proxy-Authorization: ".toList ++ value) = all at hline hmem
  cases all with
  | nil => exact absurd hline List.not_mem_nil
  | cons first rest =>
      rw [headerLines_joinHead] at hline
      have hin := List.mem_of_mem_drop (List.takeWhile_subset _ hline)
      obtain ⟨l, hl, hline⟩ := List.mem_flatMap.mp hin
      rcases hmem l hl with rfl | hkept
      · exact hline
      · obtain ⟨hone, hno⟩ := hall l hkept
        rw [splitCrlf_oneLine hone, List.mem_singleton] at hline
        rw [hline, hno] at hcred
        cases hcred

/-- A trunk whose texts fit into a request line. -/
structure PlainTrunk (t : TrunkConfig) : Prop where
  host : Plain t.host
  countryCode : ∀ cc ∈ t.countryCode, Plain cc
  nationalPrefix : ∀ digits ∈ t.nationalPrefix, Plain digits

theorem Plain.oneLine_append {text rest : List Char} (h : Plain text) (hrest : OneLine rest) :
    OneLine (text ++ rest) := by
  cases text with
  | nil => exact hrest
  | cons c cs => exact OneLine.append oneLine_nil (List.cons_ne_nil c cs) h.no_cr h.no_lf hrest

theorem oneLine_normalizeNumber {t : TrunkConfig} (ht : PlainTrunk t) {number : List Char}
    (h : OneLine number) : OneLine (normalizeNumber t number) := by
  unfold normalizeNumber
  split
  next =>
    split
    next => exact h
    next national =>
      split
      next cc hcc =>
        have hplus : Plain (['+'] ++ cc) := Plain.append ⟨by decide, by decide⟩ (ht.countryCode cc hcc)
        exact hplus.oneLine_append h.of_cons
      next => exact h
    next => exact h
  next =>
    split
    next cc hcc =>
      split
      next =>
        refine Plain.oneLine_append ?_ (h.of_infix (List.drop_suffix _ _).isInfix)
        cases hprefix : t.nationalPrefix with
        | none => exact ⟨by decide, by decide⟩
        | some digits => exact ht.nationalPrefix digits hprefix
      next => exact h
    next => exact h
  next =>
    split
    next cc hcc =>
      split
      next => exact h.of_infix (List.drop_suffix _ _).isInfix
      next => exact h
    next => exact h

theorem suffix_of_splitOnce {c : Char} {text : List Char} {p : List Char × List Char}
    (h : splitOnce c text = some p) : p.2 <:+ text := by
  rw [eq_of_splitOnce h]
  exact (List.suffix_cons c p.2).trans (List.suffix_append p.1 _)

theorem oneLine_dialledUser {user : List Char} (h : OneLine line) (huser : dialledUser line = some user) :
    OneLine user := by
  unfold dialledUser at huser
  simp only [Option.bind_eq_bind, Option.bind_eq_some_iff] at huser
  obtain ⟨⟨method, rest⟩, hsplit, huser⟩ := huser
  split at huser
  next =>
    obtain ⟨address, haddress, huser⟩ := Option.bind_eq_some_iff.mp huser
    cases huser
    have hsuffix : address <:+ rest.takeWhile (· ≠ ' ') := by
      rw [Option.orElse_eq_orElse, Option.orElse_eq_or] at haddress
      rcases Option.or_eq_some_iff.mp haddress with hstrip | ⟨-, hstrip⟩
      · exact eq_of_stripPrefix hstrip ▸ List.suffix_append _ _
      · exact eq_of_stripPrefix hstrip ▸ List.suffix_append _ _
    refine h.of_infix ?_
    refine (((List.takeWhile_prefix _).trans (List.takeWhile_prefix _)).isInfix.trans hsuffix.isInfix).trans ?_
    exact (List.takeWhile_prefix _).isInfix.trans (suffix_of_splitOnce hsplit).isInfix
  next => cases huser

theorem oneLine_sipVersion (h : OneLine line) : OneLine (sipVersion line) := by
  unfold sipVersion
  split
  next method version hsplit =>
    obtain ⟨p, hp, hversion⟩ := Option.bind_eq_some_iff.mp hsplit
    exact h.of_infix ((suffix_of_splitOnce hversion).trans (suffix_of_splitOnce hp)).isInfix
  next => exact oneLine_of_not_lf (by decide)

theorem oneLine_requestLine {t : TrunkConfig} (ht : PlainTrunk t) {number version : List Char}
    (hnumber : OneLine number) (hversion : OneLine version) : OneLine (requestLine t number version) := by
  have hmethod : Plain "INVITE sip:".toList := ⟨by decide, by decide⟩
  have haddress : OneLine ("INVITE sip:".toList ++ number ++ '@' :: t.host) :=
    (hmethod.oneLine_append hnumber).append_cons (by decide) (by decide) ht.host.oneLine
  have hport : OneLine ("INVITE sip:".toList ++ number ++ '@' :: t.host ++ ':' :: showNat t.port.toNat) :=
    haddress.append_cons (by decide) (by decide) (oneLine_of_not_lf (not_mem_showNat _))
  exact hport.append_cons (by decide) (by decide) hversion

/-- So does an INVITE for another trunk, which is where credentials leak. -/
theorem carries_retarget {t : TrunkConfig} {invite : List Char} (hfresh : Branch fresh) (ht : PlainTrunk t)
    (h : retargetInviteForTrunk U fresh raw t = some invite) (hcarries : Carries invite line) :
    Carries raw line := by
  obtain ⟨hline, hcred⟩ := hcarries
  have hone : ∀ l ∈ splitCrlf raw, OneLine l := fun l hl => oneLine_of_mem_splitCrlf hl
  refine ⟨?_, hcred⟩
  unfold retargetInviteForTrunk at h
  unfold headerLines at hline ⊢
  cases hsplit : splitCrlf raw with
  | nil => exact absurd hsplit (splitCrlf_ne_nil _)
  | cons first rest =>
      rw [hsplit, List.forall_mem_cons] at hone
      rw [hsplit] at h
      obtain ⟨user, huser, rfl⟩ := Option.map_eq_some_iff.mp h
      have hrequest := oneLine_requestLine ht
        (oneLine_normalizeNumber ht (oneLine_dialledUser hone.1 huser)) (oneLine_sipVersion hone.1)
      have hedited := edited_refreshVia (U := U) hfresh hone.2
      rw [splitCrlf_joinLines hrequest (oneLine_of_edited hedited hone.2)] at hline
      exact mem_of_edited hedited hline hcred

theorem proxyAuthorization_ascii : "proxy-authorization".toList.all isAscii = true := by decide

/-- A line that begins with the label is a header of that name. -/
theorem hasName_of_label {name : List Char} (hascii : name.all isAscii = true) (hlower : toAsciiLowercase name = name)
    (hplain : ∀ c ∈ name, isWhiteSpace c = false) (hcolon : ':' ∉ name) (h : name ++ [':'] <+: toAsciiLowercase line) :
    hasName U name line = true := by
  obtain ⟨label, rest, rfl, hlabel⟩ := exists_label h
  have hback {c : Char} (hc : c ∈ label) : c.toLower ∈ name := hlabel ▸ List.mem_map_of_mem hc
  have hsmall : ∀ c ∈ label, isAscii c = true := fun c hc =>
    decide_eq_true (toLower_ascii (of_decide_eq_true (List.all_eq_true.mp hascii _ (hback hc))))
  have hblank : ∀ c ∈ label, isWhiteSpace c = false := by
    intro c hc
    have hletter : isWhiteSpace c.toLower = false → isWhiteSpace c = false :=
      forall_ascii (p := fun c => isWhiteSpace c.toLower = false → isWhiteSpace c = false) (by decide +kernel)
        (of_decide_eq_true (hsmall c hc))
    exact hletter (hplain _ (hback hc))
  have hnone : ':' ∉ label := fun hc => hcolon (hback hc)
  have htrim : trim label = label :=
    trim_eq_self (fun c hc => hblank c (List.mem_of_mem_head? hc)) fun c hc => hblank c (List.mem_of_getLast? hc)
  rw [hasName_append U rest hnone (List.all_eq_true.mpr hsmall) hascii, sameName, decide_eq_true_iff, htrim, hlabel, hlower]
  exact .inl rfl

/-- They have the name by which they are removed. -/
theorem hasName_of_credential (h : isCredential line = true) :
    hasName U "proxy-authorization".toList line = true := by
  have hname : proxyAuthorization = "proxy-authorization".toList ++ [':'] := by decide +kernel
  exact hasName_of_label proxyAuthorization_ascii (by decide) (not_blank_of_all (by decide)) (by decide) (hname ▸ of_decide_eq_true h)

theorem headerLines_render {m : RawSipMessage} (h : Canonical m) : headerLines (render m) = m.headers := by
  have hrender : render m = joinHead (m.startLine :: m.headers) m.body := render_eq m
  rw [hrender, headerLines_lines m.body (oneLine_of_not_lf h.no_lf) fun l hl =>
    oneLine_of_not_lf (h.headers l hl).one_line]
  exact List.takeWhile_eq_self_iff.mpr fun l hl => decide_eq_true (h.headers l hl).ne_nil

section Timer

variable {m : RawSipMessage} {expires minSe : UInt32}

theorem mem_timer (h : line ∈ (applySessionTimerHeaders U m expires minSe).headers) :
    line ∈ m.headers ∨ line ∈ timerHeaders (hasTimer U (removeHeader U (removeHeader U (removeHeader U m
      "session-expires".toList) "x".toList) "min-se".toList)) expires minSe := by
  unfold applySessionTimerHeaders at h
  dsimp only at h
  rcases List.mem_append.mp h with h | h
  · rcases List.mem_append.mp h with h | h
    · have h := List.mem_of_mem_take h
      exact .inl (List.mem_of_mem_filter (List.mem_of_mem_filter (List.mem_of_mem_filter h)))
    · exact .inr h
  · have h := List.mem_of_mem_drop h
    exact .inl (List.mem_of_mem_filter (List.mem_of_mem_filter (List.mem_of_mem_filter h)))

theorem timerHeaders_cases {hasTimer : Bool} (h : line ∈ timerHeaders hasTimer expires minSe) :
    line = "Supported: timer".toList ∨ line = "Session-Expires: ".toList ++ showNat expires.toNat ∨
      line = "Min-SE: ".toList ++ showNat minSe.toNat := by
  unfold timerHeaders at h
  rcases List.mem_append.mp h with h | h
  · cases hasTimer with
    | true => exact absurd h List.not_mem_nil
    | false => exact .inl (List.mem_singleton.mp h)
  · exact .inr (by simpa only [List.mem_cons, List.not_mem_nil, or_false] using h)

theorem not_credential_timer {hasTimer : Bool} (h : line ∈ timerHeaders hasTimer expires minSe) :
    isCredential line = false := by
  rcases timerHeaders_cases h with rfl | rfl | rfl
  · rfl
  · rfl
  · rfl

theorem canonical_timer (h : Canonical m) (expires minSe : UInt32) :
    Canonical (applySessionTimerHeaders U m expires minSe) := by
  apply h.withHeaders
  intro l hl
  rcases mem_timer (m := m) hl with hl | hl
  · exact h.headers l hl
  · rcases timerHeaders_cases hl with rfl | rfl | rfl
    · exact ⟨by decide, by decide, by decide⟩
    · exact headerLine_append _ (by decide) (by decide) (by decide) (not_mem_showNat _)
    · exact headerLine_append _ (by decide) (by decide) (by decide) (not_mem_showNat _)

end Timer

/-- The INVITE that answers a 422 carries nothing. -/
theorem not_carries_interval (hfresh : Branch fresh) (expires minSe : UInt32) :
    ¬ Carries (buildSessionIntervalRetry U fresh raw expires minSe) line := by
  intro h
  unfold buildSessionIntervalRetry at h
  dsimp only at h
  split at h
  next m hparse =>
    obtain ⟨hline, hcred⟩ := carries_renew hfresh h
    have hcanonical := parse_canonical hparse
    rw [headerLines_render (canonical_timer (canonical_removeHeader hcanonical _) expires minSe)] at hline
    rcases mem_timer hline with hline | hline
    · have hremoved := (List.mem_filter.mp hline).2
      rw [hasName_of_credential hcred] at hremoved
      cases hremoved
    · rw [not_credential_timer hline] at hcred
      cases hcred
  next hparse => cases hparse

end Builders

end NixiSbc.CredentialLines
