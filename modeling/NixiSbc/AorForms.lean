import NixiSbc.ContactGrammar
import NixiSbc.CredentialLines

namespace NixiSbc.AorForms

open TextScan TextFields TextLines Identity
open ContactGrammar (find_append)
open CredentialLines (colon_of_lower forall_ascii toLower_ascii exists_label)

section LastSeparator

variable {sep : Char} {front back text : List Char}

theorem find_none (h : sep ∉ text) : find sep text = none := List.idxOf?_eq_none_iff.mpr h

theorem rfind_none (h : sep ∉ text) : rfind sep text = none := by
  rw [rfind, List.idxOf?_eq_none_iff.mpr fun hm => h (List.mem_reverse.mp hm), Option.map_none]

theorem rfind_append (h : sep ∉ back) (front : List Char) : rfind sep (front ++ sep :: back) = some front.length := by
  have hreverse : (front ++ sep :: back).reverse = back.reverse ++ sep :: front.reverse := by simp
  have hfind := find_append (fun hm => h (List.mem_reverse.mp hm)) front.reverse
  rw [find] at hfind
  rw [rfind, hreverse, hfind, Option.map_some, List.length_append, List.length_reverse, List.length_cons]
  congr 1
  omega

theorem rsplitOnce_none (h : sep ∉ text) : rsplitOnce sep text = none := by
  rw [rsplitOnce, rfind_none h, Option.map_none]

theorem rsplitOnce_append (h : sep ∉ back) (front : List Char) :
    rsplitOnce sep (front ++ sep :: back) = some (front, back) := by
  rw [rsplitOnce, rfind_append h, Option.map_some, List.take_left, ← List.drop_drop, List.drop_left]
  rfl

theorem exists_last (h : sep ∈ text) : ∃ front back, text = front ++ sep :: back ∧ sep ∉ back := by
  obtain ⟨as, bs, hreverse, hnot⟩ := List.eq_append_cons_of_mem (List.mem_reverse.mpr h)
  refine ⟨bs.reverse, as.reverse, ?_, fun hm => hnot (List.mem_reverse.mp hm)⟩
  rw [← List.reverse_reverse text, hreverse]
  simp

theorem exists_first (h : sep ∈ text) : ∃ front back, text = front ++ sep :: back ∧ sep ∉ front :=
  List.eq_append_cons_of_mem h

theorem append_sep_inj {front' back' : List Char} (h : sep ∉ front) (h' : sep ∉ front')
    (heq : front ++ sep :: back = front' ++ sep :: back') : front = front' ∧ back = back' := by
  have hsplit := splitOnce_append h back
  rw [heq, splitOnce_append h'] at hsplit
  exact ⟨(congrArg Prod.fst (Option.some.inj hsplit)).symm, (congrArg Prod.snd (Option.some.inj hsplit)).symm⟩

theorem append_last_inj {front' back' : List Char} (h : sep ∉ back) (h' : sep ∉ back')
    (heq : front ++ sep :: back = front' ++ sep :: back') : front = front' ∧ back = back' := by
  have hsplit := rsplitOnce_append h front
  rw [heq, rsplitOnce_append h'] at hsplit
  exact ⟨(congrArg Prod.fst (Option.some.inj hsplit)).symm, (congrArg Prod.snd (Option.some.inj hsplit)).symm⟩

end LastSeparator

section Lower

theorem lower_or_same : ∀ n < 128, (Char.ofNat n).toLower = Char.ofNat n ∨ (Char.ofNat n).toLower.isLower = true := by
  decide +kernel

theorem eq_of_lower {c d : Char} (hd : d.toNat < 128) (hmark : d.isLower = false) (h : c.toLower = d) : c = d := by
  rcases forall_ascii (p := fun c => c.toLower = c ∨ c.toLower.isLower = true) lower_or_same
    (toLower_ascii (h ▸ hd)) with hsame | hletter
  · rw [← hsame, h]
  · rw [h, hmark] at hletter
    cases hletter

theorem at_of_lower {c : Char} (h : c.toLower = '@') : c = '@' := eq_of_lower (by decide) (by decide) h

theorem lt_of_lower {c : Char} (h : c.toLower = '<') : c = '<' := eq_of_lower (by decide) (by decide) h

theorem bracket_of_lower {c : Char} (h : c.toLower = ']') : c = ']' := eq_of_lower (by decide) (by decide) h

theorem mem_lower {c : Char} {text : List Char} (hc : c.toLower = c) (h : c ∈ text) : c ∈ toAsciiLowercase text :=
  hc ▸ List.mem_map_of_mem h

theorem not_mem_lower {d : Char} (hd : ∀ c : Char, c.toLower = d → c = d) {text : List Char} (h : d ∉ text) :
    d ∉ toAsciiLowercase text := by
  intro hm
  obtain ⟨c, hc, hlower⟩ := List.mem_map.mp hm
  exact h (hd c hlower ▸ hc)

theorem colon_not_mem_lower {text : List Char} (h : ':' ∉ text) : ':' ∉ toAsciiLowercase text :=
  not_mem_lower (fun _ => colon_of_lower) h

theorem at_not_mem_lower {text : List Char} (h : '@' ∉ text) : '@' ∉ toAsciiLowercase text :=
  not_mem_lower (fun _ => at_of_lower) h

theorem lower_lower (text : List Char) : toAsciiLowercase (toAsciiLowercase text) = toAsciiLowercase text := by
  simp [toAsciiLowercase]

end Lower

section Parts

def IsSip (scheme : List Char) : Prop :=
  toAsciiLowercase scheme = "sip".toList ∨ toAsciiLowercase scheme = "sips".toList

/-- The scheme with its colon, and what follows. -/
def schemeParts (inner : List Char) : List Char × List Char :=
  match splitOnce ':' inner with
  | some (scheme, rest) =>
      if toAsciiLowercase scheme = "sip".toList ∨ toAsciiLowercase scheme = "sips".toList then
        (toAsciiLowercase scheme ++ [':'], rest)
      else ([], inner)
  | none => ([], inner)

/-- The user with its sign, and what follows. -/
def userParts (rest : List Char) : List Char × List Char :=
  match rsplitOnce '@' rest with
  | some (user, host) => (user ++ ['@'], host)
  | none => ([], rest)

def withoutPort (host : List Char) : List Char :=
  match rsplitOnce ':' host with
  | some (h, digits) => if h ≠ [] ∧ digits.all isDigit then h else host
  | none => host

def canonicalForm (inner : List Char) : List Char :=
  (schemeParts inner).1 ++ (userParts (schemeParts inner).2).1 ++
    toAsciiLowercase (withoutPort (userParts (schemeParts inner).2).2)

def isCut (c : Char) : Bool := c = ';' ∨ c = '?'

/-- What stands before the parameters, without blanks and brackets at its ends. -/
def trimmedFront (inner : List Char) : List Char := trimEndMatches '>' (trim (inner.takeWhile fun c => !isCut c))

/-- Between the first and the last angle bracket. -/
def unbracketed (s : List Char) : List Char :=
  match find '<' s, rfind '>' s with
  | some a, some b => if a < b then trim (between a b s) else s
  | _, _ => s

theorem canonicalAor_eq (raw : List Char) :
    canonicalAor raw = canonicalForm (trimmedFront (unbracketed (trim raw))) := by
  have hcut : (fun c : Char => !isCut c) = fun c => decide (c ≠ ';' ∧ c ≠ '?') := by
    ext c
    simp [isCut]
  unfold canonicalAor canonicalForm schemeParts userParts withoutPort trimmedFront unbracketed
  rw [hcut]
  -- nothing is left where both sides came to share their matches
  all_goals
    dsimp only
    generalize trimEndMatches '>' (trim (List.takeWhile _ _)) = inner
    cases splitOnce ':' inner with
    | none =>
        cases rsplitOnce '@' inner with
        | none => rfl
        | some p => rfl
    | some p =>
        dsimp only
        split
        next =>
          cases rsplitOnce '@' p.2 with
          | none => rfl
          | some q => rfl
        next =>
          cases rsplitOnce '@' inner with
          | none => rfl
          | some q => rfl

theorem IsSip.no_colon {scheme : List Char} (h : IsSip scheme) : ':' ∉ scheme := by
  intro hm
  have hlower : ':' ∈ toAsciiLowercase scheme := mem_lower rfl hm
  rcases h with h | h
  · exact absurd (h ▸ hlower) (by decide)
  · exact absurd (h ▸ hlower) (by decide)

theorem schemeParts_sip {scheme : List Char} (h : IsSip scheme) (rest : List Char) :
    schemeParts (scheme ++ ':' :: rest) = (toAsciiLowercase scheme ++ [':'], rest) := by
  rw [schemeParts, splitOnce_append h.no_colon]
  exact if_pos h

/-- Without the scheme of an address nothing is taken off the front. -/
theorem schemeParts_other {inner : List Char} (h : ∀ scheme rest, IsSip scheme → inner ≠ scheme ++ ':' :: rest) :
    schemeParts inner = ([], inner) := by
  rw [schemeParts]
  split
  next scheme rest hsplit =>
    exact if_neg fun hsip => h scheme rest hsip (eq_of_splitOnce hsplit)
  next => rfl

theorem userParts_at {host : List Char} (h : '@' ∉ host) (user : List Char) :
    userParts (user ++ '@' :: host) = (user ++ ['@'], host) := by
  rw [userParts, rsplitOnce_append h]

theorem userParts_none {rest : List Char} (h : '@' ∉ rest) : userParts rest = ([], rest) := by
  rw [userParts, rsplitOnce_none h]

theorem userParts_split (rest : List Char) :
    rest = (userParts rest).1 ++ (userParts rest).2 ∧ '@' ∉ (userParts rest).2 := by
  by_cases hat : '@' ∈ rest
  · obtain ⟨user, host, rfl, hhost⟩ := exists_last hat
    rw [userParts_at hhost]
    exact ⟨by simp, hhost⟩
  · rw [userParts_none hat]
    exact ⟨rfl, hat⟩

/-- Nothing, or a colon and digits. -/
def IsPort (port : List Char) : Prop := port = [] ∨ ∃ digits, port = ':' :: digits ∧ digits.all isDigit = true

theorem withoutPort_split (host : List Char) : ∃ port, IsPort port ∧ host = withoutPort host ++ port := by
  rw [withoutPort]
  by_cases hcolon : ':' ∈ host
  · obtain ⟨front, digits, rfl, hdigits⟩ := exists_last hcolon
    rw [rsplitOnce_append hdigits]
    dsimp only
    split
    next h => exact ⟨':' :: digits, .inr ⟨digits, rfl, h.2⟩, rfl⟩
    next => exact ⟨[], .inl rfl, (List.append_nil _).symm⟩
  · rw [rsplitOnce_none hcolon]
    exact ⟨[], .inl rfl, (List.append_nil _).symm⟩

theorem colon_not_mem_digits {digits : List Char} (h : digits.all isDigit = true) : ':' ∉ digits :=
  fun hm => absurd (List.all_eq_true.mp h ':' hm) (by decide)

theorem not_mem_port {port : List Char} (h : IsPort port) {c : Char} (hcolon : c ≠ ':') (hc : isDigit c = false) :
    c ∉ port := by
  rcases h with rfl | ⟨digits, rfl, hdigits⟩
  · exact List.not_mem_nil
  · refine List.not_mem_cons_of_ne_of_not_mem hcolon fun hm => ?_
    cases (List.all_eq_true.mp hdigits c hm).symm.trans hc

/-- A host of which no port can be taken off. -/
def Portless (host : List Char) : Prop :=
  host ≠ [] ∧ ∀ front digits, host = front ++ ':' :: digits → digits.all isDigit ≠ true

theorem withoutPort_append {host port : List Char} (h : Portless host) (hport : IsPort port) :
    withoutPort (host ++ port) = host := by
  rcases hport with rfl | ⟨digits, rfl, hdigits⟩
  · rw [List.append_nil, withoutPort]
    by_cases hcolon : ':' ∈ host
    · obtain ⟨front, digits, heq, hdigits⟩ := exists_last hcolon
      rw [heq, rsplitOnce_append hdigits]
      exact if_neg fun hall => h.2 front digits heq hall.2
    · rw [rsplitOnce_none hcolon]
  · rw [withoutPort, rsplitOnce_append (colon_not_mem_digits hdigits)]
    exact if_pos ⟨h.1, hdigits⟩

end Parts

section Spelling

/-- A user with its sign. -/
def userText : Option (List Char) → List Char
  | none => []
  | some user => user ++ ['@']

/-- The one spelling of an address. -/
def addressForm (scheme : List Char) (user : Option (List Char)) (host : List Char) : List Char :=
  scheme ++ ':' :: (userText user ++ host)

/-- The spellings of an address: scheme and host in any case, and a port behind. -/
def Spells (scheme : List Char) (user : Option (List Char)) (host text : List Char) : Prop :=
  ∃ sch h port, toAsciiLowercase sch = scheme ∧ toAsciiLowercase h = host ∧ IsPort port ∧
    text = sch ++ ':' :: (userText user ++ (h ++ port))

variable {scheme host text : List Char} {user : Option (List Char)}

theorem userParts_text (h : '@' ∉ host) (user : Option (List Char)) :
    userParts (userText user ++ host) = (userText user, host) := by
  cases user with
  | none => exact userParts_none h
  | some user =>
      rw [userText, List.append_assoc]
      exact userParts_at h user

theorem canonicalForm_of_spells (hscheme : scheme = "sip".toList ∨ scheme = "sips".toList) (hat : '@' ∉ host)
    (hhost : ∀ h, toAsciiLowercase h = host → Portless h) (h : Spells scheme user host text) :
    canonicalForm text = addressForm scheme user host := by
  obtain ⟨sch, hst, port, hsch, hlower, hport, rfl⟩ := h
  have hsip : IsSip sch := hscheme.imp hsch.trans hsch.trans
  have hat' : '@' ∉ hst ++ port :=
    List.not_mem_append (fun hm => hat (hlower ▸ mem_lower rfl hm)) (not_mem_port hport (by decide) (by decide))
  rw [canonicalForm, schemeParts_sip hsip, userParts_text hat']
  dsimp only
  rw [withoutPort_append (hhost hst hlower) hport, hlower, hsch, addressForm]
  simp

/-- The user that is read and the host without its port are those of the address. -/
theorem rest_of_form {rest : List Char} (hat : '@' ∉ host)
    (h : (userParts rest).1 ++ toAsciiLowercase (withoutPort (userParts rest).2) = userText user ++ host) :
    ∃ hst port, toAsciiLowercase hst = host ∧ IsPort port ∧ rest = userText user ++ (hst ++ port) := by
  obtain ⟨hrest, hnot⟩ := userParts_split rest
  obtain ⟨port, hport, hsplit⟩ := withoutPort_split (userParts rest).2
  have hhost : '@' ∉ toAsciiLowercase (withoutPort (userParts rest).2) := by
    refine at_not_mem_lower fun hm => hnot ?_
    rw [hsplit]
    exact List.mem_append_left port hm
  have hparts : (userParts rest).1 = userText user ∧ toAsciiLowercase (withoutPort (userParts rest).2) = host := by
    have hread := congrArg userParts h
    rw [userParts_text hat] at hread
    by_cases hin : '@' ∈ rest
    · obtain ⟨name, tail, rfl, htail⟩ := exists_last hin
      rw [userParts_at htail] at hread hhost ⊢
      rw [List.append_assoc, List.singleton_append, userParts_at hhost] at hread
      exact Prod.mk.inj hread
    · rw [userParts_none hin] at hread hhost ⊢
      rw [List.nil_append, userParts_none hhost] at hread
      exact Prod.mk.inj hread
  refine ⟨withoutPort (userParts rest).2, port, hparts.2, hport, ?_⟩
  rw [← hsplit, ← hparts.1]
  exact hrest

theorem spells_of_canonicalForm (hscheme : scheme = "sip".toList ∨ scheme = "sips".toList) (hat : '@' ∉ host)
    (h : canonicalForm text = addressForm scheme user host) : Spells scheme user host text := by
  have hcolon : ':' ∉ scheme := by rcases hscheme with rfl | rfl <;> decide
  by_cases hsip : ∃ sch rest, IsSip sch ∧ text = sch ++ ':' :: rest
  · obtain ⟨sch, rest, hsip, rfl⟩ := hsip
    rw [canonicalForm, schemeParts_sip hsip, List.append_assoc, List.append_assoc, List.singleton_append,
      addressForm] at h
    obtain ⟨hsch, hrest⟩ := append_sep_inj (colon_not_mem_lower hsip.no_colon) hcolon h
    obtain ⟨hst, port, hlower, hport, rfl⟩ := rest_of_form hat hrest
    exact ⟨sch, hst, port, hsch, hlower, hport, rfl⟩
  · -- the form begins with a scheme, so the text that it was read from does
    rw [canonicalForm, schemeParts_other fun sch rest hs heq => hsip ⟨sch, rest, hs, heq⟩] at h
    obtain ⟨htext, -⟩ := userParts_split text
    obtain ⟨port, -, hsplit⟩ := withoutPort_split (userParts text).2
    have hlower : toAsciiLowercase scheme = scheme := by rcases hscheme with rfl | rfl <;> decide
    have hprefix : scheme ++ [':'] <+: toAsciiLowercase text := by
      have hform : toAsciiLowercase ((userParts text).1 ++ toAsciiLowercase (withoutPort (userParts text).2)) =
          scheme ++ [':'] ++ toAsciiLowercase (userText user ++ host) := by
        rw [List.nil_append] at h
        rw [h, addressForm, toAsciiLowercase, List.map_append, List.append_assoc]
        exact congrArg (· ++ _) hlower
      have hall : toAsciiLowercase text =
          toAsciiLowercase ((userParts text).1 ++ toAsciiLowercase (withoutPort (userParts text).2)) ++
            toAsciiLowercase port := by
        have hwhole : toAsciiLowercase text =
            toAsciiLowercase ((userParts text).1 ++ (withoutPort (userParts text).2 ++ port)) := by
          rw [← hsplit, ← htext]
        rw [hwhole]
        simp [toAsciiLowercase]
      rw [hall, hform, List.append_assoc]
      exact List.prefix_append _ _
    obtain ⟨label, rest, heq, hlabel⟩ := exists_label hprefix
    exact absurd ⟨label, rest, hscheme.imp hlabel.trans hlabel.trans, heq⟩ hsip

end Spelling

section Grammar

def isAlphanum (c : Char) : Bool :=
  let n := c.toNat
  (48 ≤ n ∧ n ≤ 57) ∨ (65 ≤ n ∧ n ≤ 90) ∨ (97 ≤ n ∧ n ≤ 122)

def isUnreserved (c : Char) : Bool := isAlphanum c ∨ c ∈ "-_.!~*'()".toList

/-- In a user and its password, with the sign of an escape. -/
def isUserChar (c : Char) : Bool := isUnreserved c ∨ c ∈ "%&=+$,;?/:".toList

/-- In parameters and headers, with what stands between them. -/
def isTailChar (c : Char) : Bool := isUnreserved c ∨ c ∈ "%;=[]/:&+$?".toList

def isNameChar (c : Char) : Bool := isAlphanum c ∨ c = '-' ∨ c = '.'

/-- Within the brackets of a reference. -/
def isRefChar (c : Char) : Bool := isAlphanum c ∨ c = ':' ∨ c = '.'

/-- A name, an IPv4 address or a reference to an IPv6 address. -/
def IsHost (host : List Char) : Prop :=
  (host ≠ [] ∧ ∀ c ∈ host, isNameChar c = true) ∨
    ∃ inner, host = '[' :: (inner ++ [']']) ∧ ∀ c ∈ inner, isRefChar c = true

/-- A URI of the schemes sip and sips. The tail holds its parameters and headers. -/
structure SipUri where
  scheme : List Char
  user : Option (List Char)
  host : List Char
  port : Option (List Char)
  tail : List Char
  isSip : IsSip scheme
  user_legal : ∀ u ∈ user, ∀ c ∈ u, isUserChar c = true
  host_legal : IsHost host
  port_legal : ∀ p ∈ port, p.all isDigit = true
  tail_legal : ∀ c ∈ tail, isTailChar c = true
  tail_cut : ∀ c ∈ tail.head?, isCut c = true

def portText : Option (List Char) → List Char
  | none => []
  | some digits => ':' :: digits

/-- The URI up to its parameters. -/
def SipUri.front (u : SipUri) : List Char :=
  u.scheme ++ ':' :: (userText u.user ++ (u.host ++ portText u.port))

def SipUri.text (u : SipUri) : List Char := u.front ++ u.tail

/-- What an address of record consists of. -/
def SipUri.key (u : SipUri) : List Char × Option (List Char) × List Char :=
  (toAsciiLowercase u.scheme, u.user, toAsciiLowercase u.host)

def SipUri.form (u : SipUri) : List Char :=
  addressForm (toAsciiLowercase u.scheme) u.user (toAsciiLowercase u.host)

/-- All characters of a URI. -/
def isUriChar (c : Char) : Bool := isUnreserved c ∨ c ∈ "%&=+$,;?/:[]@".toList

theorem not_blank_of_symbols {symbols : List Char} (h : symbols.all (!isWhiteSpace ·) = true) {c : Char}
    (hc : c ∈ symbols) : isWhiteSpace c = false := by simpa using List.all_eq_true.mp h c hc

theorem isWhiteSpace_uriChar {c : Char} (h : isUriChar c = true) : isWhiteSpace c = false := by
  simp only [isUriChar, isUnreserved, decide_eq_true_eq] at h
  rcases h with (h | h) | h
  · simp only [isAlphanum, decide_eq_true_eq] at h
    simp only [isWhiteSpace, decide_eq_false_iff_not]
    omega
  · exact not_blank_of_symbols (by decide) h
  · exact not_blank_of_symbols (by decide) h

theorem uriChar_of_user {c : Char} (h : isUserChar c = true) : isUriChar c = true := by
  simp only [isUserChar, isUriChar, decide_eq_true_eq] at h ⊢
  refine h.imp id fun hc => ?_
  have hall : "%&=+$,;?/:".toList.all (· ∈ "%&=+$,;?/:[]@".toList) = true := by decide
  simpa using List.all_eq_true.mp hall c hc

theorem uriChar_of_tail {c : Char} (h : isTailChar c = true) : isUriChar c = true := by
  simp only [isTailChar, isUriChar, decide_eq_true_eq] at h ⊢
  refine h.imp id fun hc => ?_
  have hall : "%;=[]/:&+$?".toList.all (· ∈ "%&=+$,;?/:[]@".toList) = true := by decide
  simpa using List.all_eq_true.mp hall c hc

theorem uriChar_of_alphanum {c : Char} (h : isAlphanum c = true) : isUriChar c = true := by
  simp [isUriChar, isUnreserved, h]

theorem uriChar_of_host {host : List Char} (h : IsHost host) {c : Char} (hc : c ∈ host) : isUriChar c = true := by
  rcases h with ⟨-, h⟩ | ⟨inner, rfl, h⟩
  · have hname := h c hc
    simp only [isNameChar, decide_eq_true_eq] at hname
    rcases hname with hname | rfl | rfl
    · exact uriChar_of_alphanum hname
    · decide
    · decide
  · rcases List.mem_cons.mp hc with rfl | hc
    · decide
    · rcases List.mem_append.mp hc with hc | hc
      · have href := h c hc
        simp only [isRefChar, decide_eq_true_eq] at href
        rcases href with href | rfl | rfl
        · exact uriChar_of_alphanum href
        · decide
        · decide
      · rw [List.mem_singleton.mp hc]
        decide

theorem alphanum_of_lower {c : Char} (h : c.toLower ∈ "sip".toList) : isAlphanum c = true := by
  have hascii : c.toLower.toNat < 128 := by
    have hall : "sip".toList.all (fun c => c.toNat < 128) = true := by decide
    simpa using List.all_eq_true.mp hall _ h
  have hletter : c.toLower ∈ "sip".toList → isAlphanum c = true :=
    forall_ascii (p := fun c => c.toLower ∈ "sip".toList → isAlphanum c = true) (by decide +kernel) (toLower_ascii hascii)
  exact hletter h

variable (u : SipUri)

theorem alphanum_of_scheme {scheme : List Char} (h : IsSip scheme) {c : Char} (hc : c ∈ scheme) :
    isAlphanum c = true := by
  have hlower : c.toLower ∈ toAsciiLowercase scheme := List.mem_map_of_mem hc
  apply alphanum_of_lower
  rcases h with h | h
  · exact h ▸ hlower
  · rw [h] at hlower
    have hall : "sips".toList.all (· ∈ "sip".toList) = true := by decide
    simpa using List.all_eq_true.mp hall _ hlower

theorem alphanum_of_digit {c : Char} (h : isDigit c = true) : isAlphanum c = true := by
  simp only [isDigit, decide_eq_true_eq] at h
  simp only [isAlphanum, decide_eq_true_eq]
  exact .inl h

/-- Part by part through a URI up to its parameters. -/
theorem SipUri.forall_front {P : Char → Prop} (halphanum : ∀ c, isAlphanum c = true → P c) (hcolon : P ':') (hat : P '@')
    (huser : ∀ user ∈ u.user, ∀ c ∈ user, P c) (hhost : ∀ c ∈ u.host, P c) : ∀ c ∈ u.front, P c := by
  have husers : ∀ c ∈ userText u.user, P c := by
    cases hu : u.user with
    | none => exact fun c hc => nomatch hc
    | some user =>
        rw [userText, List.forall_mem_append]
        exact ⟨huser user hu, List.forall_mem_singleton.mpr hat⟩
  have hport : ∀ c ∈ portText u.port, P c := by
    cases hp : u.port with
    | none => exact fun c hc => nomatch hc
    | some digits =>
        rw [portText, List.forall_mem_cons]
        exact ⟨hcolon, fun c hc =>
          halphanum c (alphanum_of_digit (List.all_eq_true.mp (u.port_legal digits hp) c hc))⟩
  rw [SipUri.front, List.forall_mem_append, List.forall_mem_cons, List.forall_mem_append, List.forall_mem_append]
  exact ⟨fun c hc => halphanum c (alphanum_of_scheme u.isSip hc), hcolon, husers, hhost, hport⟩

theorem SipUri.text_chars {c : Char} (hc : c ∈ u.text) : isUriChar c = true := by
  rcases List.mem_append.mp hc with hc | hc
  · exact u.forall_front (fun c => uriChar_of_alphanum) (by decide) (by decide)
      (fun user huser c hc => uriChar_of_user (u.user_legal user huser c hc)) (fun c => uriChar_of_host u.host_legal) c hc
  · exact uriChar_of_tail (u.tail_legal c hc)

theorem host_not_mem {host : List Char} (h : IsHost host) {c : Char} (hname : isNameChar c = false)
    (href : isRefChar c = false) (hopen : c ≠ '[') (hclose : c ≠ ']') : c ∉ host := by
  intro hc
  rcases h with ⟨-, h⟩ | ⟨inner, rfl, h⟩
  · cases (h c hc).symm.trans hname
  · rcases List.mem_append.mp ((List.mem_cons.mp hc).resolve_left hopen) with hc | hc
    · cases (h c hc).symm.trans href
    · exact hclose (List.mem_singleton.mp hc)

/-- The colons of a reference are within its brackets. -/
theorem portless_of_host {host : List Char} (h : IsHost host) {hst : List Char}
    (hlower : toAsciiLowercase hst = toAsciiLowercase host) : Portless hst := by
  have hlength : hst.length = host.length := by
    have := congrArg List.length hlower
    rwa [toAsciiLowercase, toAsciiLowercase, List.length_map, List.length_map] at this
  constructor
  · rintro rfl
    rcases h with ⟨hne, -⟩ | ⟨inner, rfl, -⟩
    · exact hne (List.length_eq_zero_iff.mp hlength.symm)
    · cases hlength
  · rintro front digits rfl hdigits
    rcases h with ⟨-, h⟩ | ⟨inner, rfl, -⟩
    · have hcolon : ':' ∈ toAsciiLowercase (front ++ ':' :: digits) :=
        mem_lower rfl (List.mem_append_right _ List.mem_cons_self)
      rw [hlower] at hcolon
      exact colon_not_mem_lower (fun hm => absurd (h ':' hm) (by decide)) hcolon
    · have hlast : ((front ++ ':' :: digits).getLast?).map Char.toLower = some ']' := by
        have hend : (toAsciiLowercase ('[' :: (inner ++ [']']))).getLast? = some ']' := by
          rw [toAsciiLowercase, ← List.cons_append, List.map_append]
          exact List.getLast?_concat ..
        rw [← List.getLast?_map, ← hend, ← hlower]
        rfl
      obtain ⟨c, hc, hclose⟩ := Option.map_eq_some_iff.mp hlast
      rw [List.getLast?_append_of_ne_nil _ (List.cons_ne_nil _ _)] at hc
      rw [bracket_of_lower hclose] at hc
      rcases List.mem_cons.mp (List.mem_of_getLast? hc) with hc | hc
      · exact absurd hc (by decide)
      · exact absurd (List.all_eq_true.mp hdigits ']' hc) (by decide)

theorem canonicalForm_iff {inner : List Char} : canonicalForm inner = u.form ↔
    Spells (toAsciiLowercase u.scheme) u.user (toAsciiLowercase u.host) inner := by
  have hat : '@' ∉ toAsciiLowercase u.host :=
    at_not_mem_lower (host_not_mem u.host_legal (by decide) (by decide) (by decide) (by decide))
  exact ⟨spells_of_canonicalForm u.isSip hat,
    canonicalForm_of_spells u.isSip hat fun hst hlower => portless_of_host u.host_legal hlower⟩

/-- The user has no sign of parameters or headers in it. -/
def SipUri.Uncut (u : SipUri) : Prop := ∀ user ∈ u.user, ∀ c ∈ user, isCut c = false

def SipUri.Spelled (u : SipUri) (text : List Char) : Prop :=
  Spells (toAsciiLowercase u.scheme) u.user (toAsciiLowercase u.host) text

theorem uncut_of_spelled {u : SipUri} {text : List Char} (h : u.Spelled text) (htext : ∀ c ∈ text, isCut c = false) :
    u.Uncut := by
  obtain ⟨sch, hst, port, -, -, -, rfl⟩ := h
  intro user huser c hc
  apply htext
  rw [Option.mem_def.mp huser, userText]
  simp [hc]

theorem lt_not_mem_spelled {u : SipUri} {text : List Char} (h : u.Spelled text) : '<' ∉ text := by
  obtain ⟨sch, hst, port, hsch, hlower, hport, rfl⟩ := h
  have hsip : IsSip sch := u.isSip.imp hsch.trans hsch.trans
  have hscheme : '<' ∉ sch := fun hm => absurd (alphanum_of_scheme hsip hm) (by decide)
  have huser : '<' ∉ userText u.user := by
    cases hu : u.user with
    | none => exact List.not_mem_nil
    | some user => exact List.not_mem_append (fun hm => absurd (u.user_legal user hu '<' hm) (by decide)) (by decide)
  have hhost : '<' ∉ hst := by
    intro hm
    have hmem : '<' ∈ toAsciiLowercase u.host := hlower ▸ mem_lower rfl hm
    exact not_mem_lower (fun _ => lt_of_lower)
      (host_not_mem u.host_legal (by decide) (by decide) (by decide) (by decide)) hmem
  exact List.not_mem_append hscheme (List.not_mem_cons_of_ne_of_not_mem (by decide)
    (List.not_mem_append huser (List.not_mem_append hhost (not_mem_port hport (by decide) (by decide)))))

theorem spelled_front : u.Spelled u.front := by
  refine ⟨u.scheme, u.host, portText u.port, rfl, rfl, ?_, rfl⟩
  cases hport : u.port with
  | none => exact .inl rfl
  | some digits => exact .inr ⟨digits, rfl, u.port_legal digits hport⟩

theorem isCut_alphanum {c : Char} (h : isAlphanum c = true) : isCut c = false := by
  simp only [isAlphanum, decide_eq_true_eq] at h
  rw [isCut, decide_eq_false_iff_not]
  rintro (rfl | rfl) <;> simp at h

/-- What stands before the parameters is all of the URI but them. -/
theorem takeWhile_text {u : SipUri} (h : u.Uncut) : u.text.takeWhile (fun c => !isCut c) = u.front := by
  have hhost : ∀ c ∈ u.host, (!isCut c) = true := by
    intro c hc
    rw [Bool.not_eq_true', isCut, decide_eq_false_iff_not]
    rintro (rfl | rfl)
    · exact host_not_mem u.host_legal (by decide) (by decide) (by decide) (by decide) hc
    · exact host_not_mem u.host_legal (by decide) (by decide) (by decide) (by decide) hc
  have hfront : ∀ c ∈ u.front, (!isCut c) = true :=
    u.forall_front (fun c hc => by rw [isCut_alphanum hc]; rfl) rfl rfl
      (fun user huser c hc => by rw [h user huser c hc]; rfl) hhost
  rw [SipUri.text, List.takeWhile_append_of_pos hfront]
  cases htail : u.tail with
  | nil => rw [List.takeWhile_nil, List.append_nil]
  | cons c tail =>
      have hcut : isCut c = true := u.tail_cut c (by rw [htail]; rfl)
      rw [List.takeWhile_cons_of_neg (by simp [hcut]), List.append_nil]

end Grammar

/-- How an address is written in a header: by itself, or in angle brackets after
a display name, which is any text. -/
inductive Written
  | bare (uri : SipUri)
  | angled (display : List Char) (uri : SipUri)

def Written.uri : Written → SipUri
  | .bare uri => uri
  | .angled _ uri => uri

def Written.text : Written → List Char
  | .bare uri => uri.text
  | .angled display uri => display ++ '<' :: (uri.text ++ ['>'])

/-- The display name has no bracket, or up to the next sign of parameters it
spells the address itself. -/
def Written.Led : Written → Prop
  | .bare _ => True
  | .angled display uri => ∀ front rest, display = front ++ '<' :: rest → '<' ∉ front →
      rest.any isCut = true ∧ uri.Spelled (trimmedFront rest)

/-- The one spelling is what the address is brought to, and it stays. -/
structure Canonical (w : Written) : Prop where
  form : canonicalAor w.text = w.uri.form
  again : canonicalAor (canonicalAor w.text) = canonicalAor w.text

section Brackets

variable {u : SipUri} {text : List Char}

theorem trim_uriChars (h : ∀ c ∈ text, isUriChar c = true) : trim text = text :=
  trim_eq_self (fun c hc => isWhiteSpace_uriChar (h c (List.mem_of_mem_head? hc))) fun c hc =>
    isWhiteSpace_uriChar (h c (List.mem_of_getLast? hc))

theorem trimEndMatches_self {c : Char} (h : ∀ d, text.getLast? = some d → d ≠ c) : trimEndMatches c text = text := by
  refine List.rdropWhile_eq_self_iff.mpr fun hne => ?_
  simpa using h _ (List.getLast?_eq_some_getLast hne)

theorem trimmedFront_uriChars (h : ∀ c ∈ text, isUriChar c = true) :
    trimmedFront text = text.takeWhile fun c => !isCut c := by
  have hfront : ∀ c ∈ text.takeWhile (fun c => !isCut c), isUriChar c = true := fun c hc =>
    h c ((List.takeWhile_prefix _).subset hc)
  rw [trimmedFront, trim_uriChars hfront]
  refine trimEndMatches_self fun d hd => ?_
  rintro rfl
  exact absurd (hfront '>' (List.mem_of_getLast? hd)) (by decide)

theorem trimStart_append_cons {c : Char} (hc : isWhiteSpace c = false) (xs ys : List Char) :
    trimStart (xs ++ c :: ys) = trimStart xs ++ c :: ys := by
  rw [trimStart, trimStart, List.dropWhile_append]
  split
  next h =>
    rw [List.dropWhile_cons_of_neg (by simp [hc]), List.isEmpty_iff.mp h]
    rfl
  next => rfl

theorem trim_angled (display : List Char) (text : List Char) :
    trim (display ++ '<' :: (text ++ ['>'])) = trimStart display ++ '<' :: (text ++ ['>']) := by
  have hclose : trimStart display ++ '<' :: (text ++ ['>']) = (trimStart display ++ '<' :: text) ++ ['>'] := by simp
  have hend : trimEnd ['>'] = ['>'] := by decide
  rw [trim, trimStart_append_cons rfl, hclose, trimEnd_append _ (by rw [hend]; decide), hend]

theorem unbracketed_angled {front : List Char} (h : '<' ∉ front) (text : List Char) :
    unbracketed (front ++ '<' :: (text ++ ['>'])) = trim text := by
  have hlast : rfind '>' (front ++ '<' :: (text ++ ['>'])) = some (front.length + 1 + text.length) := by
    have hat : rfind '>' ((front ++ '<' :: text) ++ ['>']) = some (front ++ '<' :: text).length :=
      rfind_append List.not_mem_nil _
    rw [List.append_assoc, List.cons_append, List.length_append, List.length_cons] at hat
    rw [hat]
    congr 1
    omega
  have hbetween : between front.length (front.length + 1 + text.length) (front ++ '<' :: (text ++ ['>'])) = text := by
    have hsplit : front ++ '<' :: (text ++ ['>']) = (front ++ ['<']) ++ (text ++ ['>']) := by simp
    have hlength : front.length + 1 = (front ++ ['<']).length := by simp
    rw [between, hsplit, List.drop_take, hlength, List.drop_left]
    simp
  rw [unbracketed, find_append h, hlast]
  dsimp only
  rw [if_pos (by omega), hbetween]

theorem unbracketed_bare (h : '<' ∉ text) : unbracketed text = text := by rw [unbracketed, find_none h]

theorem mem_trimmedFront {c : Char} (hc : isWhiteSpace c = false) (hne : c ≠ '>')
    (h : c ∈ text.takeWhile fun c => !isCut c) : c ∈ trimmedFront text := by
  have htrim := mem_trim h hc
  rw [trimmedFront, trimEndMatches, List.mem_reverse]
  exact mem_dropWhile_of_neg (List.mem_reverse.mpr htrim) (by simpa using hne)

theorem not_cut_trimmedFront {c : Char} (h : c ∈ trimmedFront text) : isCut c = false := by
  have htrim : c ∈ trim (text.takeWhile fun c => !isCut c) := by
    rw [trimmedFront, trimEndMatches, List.mem_reverse] at h
    exact List.mem_reverse.mp ((List.dropWhile_suffix _).subset h)
  simpa using List.mem_takeWhile_imp (mem_of_mem_trim htrim)

/-- The blanks in front of a text make no difference. -/
theorem trimmedFront_trimStart (text : List Char) : trimmedFront (trimStart text) = trimmedFront text := by
  have hblank : ∀ c, isWhiteSpace c = true → isCut c = false := by
    intro c hc
    rw [isCut, decide_eq_false_iff_not]
    rintro (rfl | rfl)
    · exact absurd hc (by decide)
    · exact absurd hc (by decide)
  have htake : (trimStart text).takeWhile (fun c => !isCut c) = trimStart (text.takeWhile fun c => !isCut c) := by
    induction text with
    | nil => rfl
    | cons c text ih =>
        by_cases hc : isWhiteSpace c = true
        · rw [trimStart, List.dropWhile_cons_of_pos hc, List.takeWhile_cons_of_pos (by simp [hblank c hc]), trimStart,
            List.dropWhile_cons_of_pos hc]
          exact ih
        · rw [trimStart, List.dropWhile_cons_of_neg hc]
          by_cases hcut : isCut c = true
          · rw [List.takeWhile_cons_of_neg (by simp [hcut])]
            rfl
          · rw [List.takeWhile_cons_of_pos (by simpa using hcut), trimStart, List.dropWhile_cons_of_neg hc]
  have hidem (text : List Char) : trim (trimStart text) = trim text := by
    rw [trim, trim, trimStart, trimStart, List.dropWhile_idempotent]
  rw [trimmedFront, trimmedFront, htake, hidem]

/-- A second bracket in front of that of the URI, in the display name. -/
theorem trimmedFront_display (rest : List Char) (u : SipUri) :
    (rest.any isCut = true → trimmedFront (trim (rest ++ '<' :: u.text)) = trimmedFront rest) ∧
      (rest.any isCut = false → '<' ∈ trimmedFront (trim (rest ++ '<' :: u.text))) := by
  have htrim : trim (rest ++ '<' :: u.text) = trimStart rest ++ '<' :: u.text := by
    rw [trim, trimStart_append_cons rfl]
    refine List.rdropWhile_eq_self_iff.mpr fun hne => ?_
    have hlast : (trimStart rest ++ '<' :: u.text).getLast hne ∈ '<' :: u.text := by
      rw [List.getLast_append_of_ne_nil _ (List.cons_ne_nil _ _)]
      exact List.getLast_mem _
    rcases List.mem_cons.mp hlast with h | h
    · rw [h]
      decide
    · rw [isWhiteSpace_uriChar (u.text_chars h)]
      decide
  rw [htrim]
  constructor
  · intro hcut
    obtain ⟨c, hc, hcut⟩ := List.any_eq_true.mp hcut
    have hmem : c ∈ trimStart rest := by
      refine mem_trimStart hc (Bool.eq_false_iff.mpr fun hblank => ?_)
      rw [isCut, decide_eq_true_eq] at hcut
      rcases hcut with rfl | rfl
      · exact absurd hblank (by decide)
      · exact absurd hblank (by decide)
    have htake : (trimStart rest ++ '<' :: u.text).takeWhile (fun c => !isCut c) =
        (trimStart rest).takeWhile fun c => !isCut c := by
      rw [List.takeWhile_append, if_neg]
      intro hall
      have heq := (List.takeWhile_prefix (fun c => !isCut c)).eq_of_length hall
      rw [← heq] at hmem
      simpa [hcut] using List.mem_takeWhile_imp hmem
    rw [trimmedFront, htake, ← trimmedFront, trimmedFront_trimStart]
  · intro hnone
    apply mem_trimmedFront rfl (by decide)
    have hall : ∀ c ∈ trimStart rest, (!isCut c) = true := fun c hc => by
      rw [List.any_eq_false] at hnone
      simpa using hnone c ((List.dropWhile_suffix _).subset hc)
    rw [List.takeWhile_append_of_pos hall, List.takeWhile_cons_of_pos rfl]
    exact List.mem_append_right _ List.mem_cons_self

/-- What the brackets hold when the display name has none. -/
theorem canonicalAor_text_iff (u : SipUri) :
    canonicalForm (trimmedFront (trim u.text)) = u.form ↔ u.Uncut := by
  rw [trim_uriChars fun c => u.text_chars, trimmedFront_uriChars fun c => u.text_chars, canonicalForm_iff]
  constructor
  · intro h
    exact uncut_of_spelled h fun c hc => by simpa using List.mem_takeWhile_imp hc
  · intro h
    rw [takeWhile_text h]
    exact spelled_front u

theorem lt_not_mem_text (u : SipUri) : '<' ∉ u.text := fun h => absurd (u.text_chars h) (by decide)

theorem canonicalAor_form_iff (w : Written) : canonicalAor w.text = w.uri.form ↔ w.uri.Uncut ∧ w.Led := by
  cases w with
  | bare u =>
      have htrim : trim u.text = u.text := trim_uriChars fun c => u.text_chars
      rw [Written.text, Written.uri, canonicalAor_eq, htrim, unbracketed_bare (lt_not_mem_text u), ← htrim,
        canonicalAor_text_iff]
      exact (and_iff_left trivial).symm
  | angled display u =>
      by_cases hlt : '<' ∈ display
      · obtain ⟨front, rest, rfl, hfront⟩ := exists_first hlt
        have htext : Written.text (.angled (front ++ '<' :: rest) u) =
            front ++ '<' :: ((rest ++ '<' :: u.text) ++ ['>']) := by simp [Written.text]
        have hled : Written.Led (.angled (front ++ '<' :: rest) u) ↔
            rest.any isCut = true ∧ u.Spelled (trimmedFront rest) := by
          constructor
          · intro h
            exact h front rest rfl hfront
          · intro h front' rest' heq hfront'
            obtain ⟨-, rfl⟩ := append_sep_inj hfront hfront' heq
            exact h
        have hstart : '<' ∉ trimStart front := fun hm => hfront ((List.dropWhile_suffix _).subset hm)
        rw [htext, hled, canonicalAor_eq, trim_angled, unbracketed_angled hstart, Written.uri, canonicalForm_iff]
        obtain ⟨hcut, hnone⟩ := trimmedFront_display rest u
        cases hany : rest.any isCut with
        | true =>
            rw [hcut hany]
            constructor
            · intro h
              exact ⟨uncut_of_spelled h fun c => not_cut_trimmedFront, rfl, h⟩
            · rintro ⟨-, -, h⟩
              exact h
        | false =>
            -- the bracket is read as a part of the address
            constructor
            · intro h
              exact absurd (hnone hany) (lt_not_mem_spelled h)
            · rintro ⟨-, h, -⟩
              cases h
      · have hstart : '<' ∉ trimStart display := fun hm => hlt ((List.dropWhile_suffix _).subset hm)
        have hled : Written.Led (.angled display u) := by
          intro front rest heq
          rw [heq] at hlt
          exact absurd (List.mem_append_right _ List.mem_cons_self) hlt
        rw [Written.text, canonicalAor_eq, trim_angled, unbracketed_angled hstart, Written.uri, canonicalAor_text_iff]
        exact (and_iff_left hled).symm

end Brackets

section Canonical

theorem userText_inj {user user' : Option (List Char)} (h : userText user = userText user') : user = user' := by
  cases user with
  | none =>
      cases user' with
      | none => rfl
      | some name' => exact absurd h.symm (List.append_ne_nil_of_right_ne_nil _ (List.cons_ne_nil _ _))
  | some name =>
      cases user' with
      | none => exact absurd h (List.append_ne_nil_of_right_ne_nil _ (List.cons_ne_nil _ _))
      | some name' => exact congrArg some (List.append_cancel_right h)

theorem form_eq_iff (u v : SipUri) : u.form = v.form ↔ u.key = v.key := by
  have hat (u : SipUri) : '@' ∉ toAsciiLowercase u.host :=
    at_not_mem_lower (host_not_mem u.host_legal (by decide) (by decide) (by decide) (by decide))
  constructor
  · intro h
    obtain ⟨hscheme, hrest⟩ := append_sep_inj (colon_not_mem_lower u.isSip.no_colon)
      (colon_not_mem_lower v.isSip.no_colon) h
    have hread := congrArg userParts hrest
    rw [userParts_text (hat u), userParts_text (hat v)] at hread
    exact Prod.ext hscheme (Prod.ext (userText_inj (Prod.mk.inj hread).1) (Prod.mk.inj hread).2)
  · intro h
    obtain ⟨hscheme, hrest⟩ := Prod.mk.inj h
    obtain ⟨huser, hhost⟩ := Prod.mk.inj hrest
    rw [SipUri.form, SipUri.form, hscheme, huser, hhost]

theorem alphanum_lower {c : Char} (h : isAlphanum c = true) : isAlphanum c.toLower = true := by
  have hascii : c.toNat < 128 := by
    simp only [isAlphanum, decide_eq_true_eq] at h
    omega
  exact forall_ascii (p := fun c => isAlphanum c = true → isAlphanum c.toLower = true) (by decide +kernel) hascii h

theorem isHost_lower {host : List Char} (h : IsHost host) : IsHost (toAsciiLowercase host) := by
  rcases h with ⟨hne, h⟩ | ⟨inner, rfl, h⟩
  · refine .inl ⟨fun hnil => hne (List.map_eq_nil_iff.mp hnil), List.forall_mem_map.mpr fun c hc => ?_⟩
    have hname := h c hc
    simp only [isNameChar, decide_eq_true_eq] at hname ⊢
    rcases hname with hname | rfl | rfl
    · exact .inl (alphanum_lower hname)
    · exact .inr (.inl rfl)
    · exact .inr (.inr rfl)
  · refine .inr ⟨toAsciiLowercase inner, by simp [toAsciiLowercase], List.forall_mem_map.mpr fun c hc => ?_⟩
    have href := h c hc
    simp only [isRefChar, decide_eq_true_eq] at href ⊢
    rcases href with href | rfl | rfl
    · exact .inl (alphanum_lower href)
    · exact .inr (.inl rfl)
    · exact .inr (.inr rfl)

/-- The address in its one spelling. -/
def SipUri.normal (u : SipUri) : SipUri where
  scheme := toAsciiLowercase u.scheme
  user := u.user
  host := toAsciiLowercase u.host
  port := none
  tail := []
  isSip := by rw [IsSip, lower_lower]; exact u.isSip
  user_legal := u.user_legal
  host_legal := isHost_lower u.host_legal
  port_legal := nofun
  tail_legal := nofun
  tail_cut := nofun

theorem normal_text (u : SipUri) : u.normal.text = u.form := by
  simp [SipUri.normal, SipUri.text, SipUri.front, SipUri.form, addressForm, portText]

theorem normal_form (u : SipUri) : u.normal.form = u.form := by
  rw [SipUri.form, SipUri.normal, lower_lower, lower_lower]
  rfl

/-- Addresses are told apart by scheme, user and host alone exactly where the
user has no sign of parameters in it and the display name leads to the URI. -/
theorem canonical_aor_iff (w w' : Written) :
    (Canonical w ↔ w.uri.Uncut ∧ w.Led) ∧ (w.uri.form = w'.uri.form ↔ w.uri.key = w'.uri.key) := by
  refine ⟨⟨fun h => (canonicalAor_form_iff w).mp h.form, fun h => ?_⟩, form_eq_iff w.uri w'.uri⟩
  have hform := (canonicalAor_form_iff w).mpr h
  have hagain : canonicalAor w.uri.form = w.uri.form := by
    have hnormal := (canonicalAor_form_iff (.bare w.uri.normal)).mpr ⟨h.1, trivial⟩
    rwa [Written.text, Written.uri, normal_text, normal_form] at hnormal
  exact ⟨hform, by rw [hform, hagain]⟩

/-- A user at a host by its name, without more. -/
def SipUri.plain (user host : List Char) (huser : user.all isUserChar = true) (hne : host ≠ [])
    (hhost : host.all isNameChar = true) : SipUri where
  scheme := "sip".toList
  user := some user
  host := host
  port := none
  tail := []
  isSip := .inl (by decide)
  user_legal := by
    intro _ hmem
    cases hmem
    exact List.all_eq_true.mp huser
  host_legal := .inl ⟨hne, List.all_eq_true.mp hhost⟩
  port_legal := nofun
  tail_legal := nofun
  tail_cut := nofun

/-- Two users at two hosts, with the same name up to a semicolon. -/
theorem semicolon_users_collide :
    (SipUri.plain "a;x".toList "h".toList (by decide) (by decide) (by decide)).key ≠
        (SipUri.plain "a;y".toList "g".toList (by decide) (by decide) (by decide)).key ∧
      canonicalAor (SipUri.plain "a;x".toList "h".toList (by decide) (by decide) (by decide)).text = "sip:a".toList ∧
      canonicalAor (SipUri.plain "a;y".toList "g".toList (by decide) (by decide) (by decide)).text = "sip:a".toList := by
  refine ⟨by decide, ?_, ?_⟩
  · decide +kernel
  · decide +kernel

end Canonical

end NixiSbc.AorForms
