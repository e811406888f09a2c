import NixiSbc.InviteCopies
import NixiSbc.ViaParams

namespace NixiSbc.RenewedLines

open TextScan TextFields TextLines TextWords TextSearch RawSip SipBuilder SipRender CrlfLines ViaReadings InviteCopies
open InviteTexts CredentialLines ViaParams

section Labels

variable {U : Lowering} {line : List Char}

/-- Outside ASCII, what is in small letters stays there: all but the Kelvin sign, which becomes a k, and the
dotted capital I, which becomes an i and a dot. -/
def LowersApart (U : Lowering) : Prop :=
  ∀ before c after, 128 ≤ c.toNat →
    U before c after = ['k'] ∨ U before c after = ['i', '\u0307'] ∨
      (U before c after ≠ [] ∧ ∀ d ∈ U before c after, 128 ≤ d.toNat)

/-- A label of small letters other than k. -/
def isLabel (pattern : List Char) : Bool := pattern.all fun c => 'a' ≤ c ∧ c ≤ 'z' ∧ c ≠ 'k'

theorem label_cons {pattern rest : List Char} {d : Char} (hpattern : isLabel pattern = true)
    (h : pattern ++ [':'] <+: d :: rest) :
    (pattern = [] ∧ d = ':') ∨
      ∃ more, pattern = d :: more ∧ isLabel more = true ∧ more ++ [':'] <+: rest ∧ d.toNat < 128 ∧ d ≠ 'k' := by
  cases pattern with
  | nil => exact .inl ⟨rfl, (List.cons_prefix_cons.mp h).1.symm⟩
  | cons p more =>
      obtain ⟨rfl, hrest⟩ := List.cons_prefix_cons.mp h
      obtain ⟨hp, hmore⟩ := Bool.and_eq_true_iff.mp hpattern
      obtain ⟨-, hle, hk⟩ := of_decide_eq_true hp
      exact .inr ⟨more, rfl, hmore, hrest, Nat.lt_of_le_of_lt (UInt32.le_iff_toNat_le.mp hle) (by decide), hk⟩

/-- Only a label in ASCII is read as one. -/
theorem ascii_label (hU : LowersApart U) {pattern before : List Char} (hpattern : isLabel pattern = true)
    (h : pattern ++ [':'] <+: lowerFrom U before line) : pattern ++ [':'] <+: toAsciiLowercase line := by
  induction line generalizing pattern before with
  | nil => exact absurd (List.prefix_nil.mp h) (by simp)
  | cons c rest ih =>
      rw [lowerFrom] at h
      by_cases hc : c.toNat < 128
      · rw [if_pos hc, List.singleton_append] at h
        rcases label_cons hpattern h with ⟨rfl, hcolon⟩ | ⟨more, rfl, hmore, hrest, -⟩
        · exact List.cons_prefix_cons.mpr ⟨hcolon.symm, List.nil_prefix⟩
        · exact List.cons_prefix_cons.mpr ⟨rfl, ih hmore hrest⟩
      · exfalso
        rw [if_neg hc] at h
        rcases hU before c rest (Nat.le_of_not_lt hc) with hk | hdot | ⟨hne, hout⟩
        · rw [hk] at h
          rcases label_cons hpattern h with ⟨-, hcolon⟩ | ⟨-, -, -, -, -, hne⟩
          · exact absurd hcolon (by decide)
          · exact hne rfl
        · rw [hdot] at h
          rcases label_cons hpattern h with ⟨-, hcolon⟩ | ⟨more, -, hmore, hrest, -⟩
          · exact absurd hcolon (by decide)
          · rcases label_cons hmore hrest with ⟨-, hcolon⟩ | ⟨-, -, -, -, hascii, -⟩
            · exact absurd hcolon (by decide)
            · exact absurd hascii (by decide)
        · obtain ⟨d, ds, hd⟩ := List.exists_cons_of_ne_nil hne
          have hlarge : 128 ≤ d.toNat := hout d (hd ▸ List.mem_cons_self)
          rw [hd] at h
          rcases label_cons hpattern h with ⟨-, rfl⟩ | ⟨-, -, -, -, hascii, -⟩
          · exact absurd hlarge (by decide)
          · exact absurd hascii (Nat.not_lt.mpr hlarge)

/-- Letters are read in any case, and nothing else is. -/
theorem plain_of_letters {name : List Char} (h : isLabel (toAsciiLowercase name) = true) :
    ∀ c ∈ name, c.toNat < 128 ∧ isWhiteSpace c = false ∧ c ≠ ':' := by
  intro c hc
  have hlower := of_decide_eq_true (List.all_eq_true.mp h _ (List.mem_map_of_mem hc))
  have hascii : c.toNat < 128 :=
    toLower_ascii (Nat.lt_of_le_of_lt (UInt32.le_iff_toNat_le.mp hlower.2.1) (by decide))
  have hplain : 'a' ≤ c.toLower ∧ c.toLower ≤ 'z' ∧ c.toLower ≠ 'k' → isWhiteSpace c = false ∧ c ≠ ':' :=
    forall_ascii (p := fun c => 'a' ≤ c.toLower ∧ c.toLower ≤ 'z' ∧ c.toLower ≠ 'k' → isWhiteSpace c = false ∧ c ≠ ':')
      (by decide +kernel) hascii
  exact ⟨hascii, hplain hlower⟩

/-- A label as it is read: letters before a colon. -/
theorem label_parts (hU : LowersApart U) {pattern : List Char} (hpattern : isLabel pattern = true)
    (h : pattern ++ [':'] <+: toLowercase U line) : ∃ name value, line = name ++ ':' :: value ∧ ':' ∉ name ∧
      name.length = pattern.length ∧ toLowercase U (trim name) = pattern := by
  obtain ⟨name, value, rfl, hname⟩ := exists_label (ascii_label hU hpattern h)
  have hplain := plain_of_letters (hname ▸ hpattern)
  have htrim : trim name = name :=
    trim_eq_self (fun c hc => (hplain c (List.mem_of_mem_head? hc)).2.1)
      fun c hc => (hplain c (List.mem_of_getLast? hc)).2.1
  have hlower : toLowercase U name = toAsciiLowercase name := by
    have happend := lowerFrom_append (U := U) [] [] fun c hc => decide_eq_true (hplain c hc).1
    rwa [List.append_nil, lowerFrom, List.append_nil] at happend
  refine ⟨name, value, rfl, fun hc => (hplain _ hc).2.2 rfl, ?_, by rw [htrim, hlower, hname]⟩
  rw [← hname, toAsciiLowercase, List.length_map]

end Labels

section Lines

variable {U : Lowering} {fresh line name value : List Char}

def namesCseq (U : Lowering) (line : List Char) : Bool :=
  ':' ∈ line ∧ toLowercase U (trim (line.takeWhile (· ≠ ':'))) = "cseq".toList

def beginsCseq (U : Lowering) (line : List Char) : Bool := "cseq:".toList <+: toLowercase U line

theorem namesVia_append (h : ':' ∉ name) : namesVia U (name ++ ':' :: value) = true ↔
    toLowercase U (trim name) = "via".toList ∨ toLowercase U (trim name) = "v".toList := by
  rw [namesVia_iff, (colon_parts h value).1]
  exact and_iff_right (List.mem_append_right name List.mem_cons_self)

theorem namesCseq_append (h : ':' ∉ name) :
    namesCseq U (name ++ ':' :: value) = true ↔ toLowercase U (trim name) = "cseq".toList := by
  rw [namesCseq, decide_eq_true_iff, (colon_parts h value).1]
  exact and_iff_right (List.mem_append_right name List.mem_cons_self)

theorem not_namesCseq_of_via (h : namesVia U line = true) : namesCseq U line = false := by
  refine Bool.eq_false_of_not_eq_true fun hcseq => ?_
  have hlower := (of_decide_eq_true hcseq).2
  rcases (namesVia_iff.mp h).2 with hvia | hvia
  · exact absurd (hvia.symm.trans hlower) (by decide)
  · exact absurd (hvia.symm.trans hlower) (by decide)

/-- A line that is taken for a Via names one, in at most three letters. -/
theorem via_parts (hU : LowersApart U) (h : isVia U line = true) :
    ∃ name value, line = name ++ ':' :: value ∧ ':' ∉ name ∧ name.length ≤ 3 ∧ namesVia U line = true := by
  rcases of_decide_eq_true h with hlong | hcompact
  · have hlabel : isLabel "via".toList = true := by decide
    obtain ⟨name, value, rfl, hcolon, hlen, hlower⟩ := label_parts hU hlabel hlong
    exact ⟨name, value, rfl, hcolon, hlen.le, (namesVia_append hcolon).mpr (.inl hlower)⟩
  · have hlabel : isLabel "v".toList = true := by decide
    obtain ⟨name, value, rfl, hcolon, hlen, hlower⟩ := label_parts hU hlabel hcompact
    exact ⟨name, value, rfl, hcolon, hlen.le.trans (by decide), (namesVia_append hcolon).mpr (.inr hlower)⟩

theorem cseq_parts (hU : LowersApart U) (h : beginsCseq U line = true) :
    ∃ name value, line = name ++ ':' :: value ∧ ':' ∉ name ∧ name.length = 4 ∧ namesCseq U line = true := by
  have hlabel : isLabel "cseq".toList = true := by decide
  obtain ⟨name, value, rfl, hcolon, hlen, hlower⟩ := label_parts hU hlabel (of_decide_eq_true h)
  exact ⟨name, value, rfl, hcolon, hlen, (namesCseq_append hcolon).mpr hlower⟩

/-- A Via line with a fresh branch. -/
def editLine (fresh line : List Char) : List Char :=
  (replaceBranch fresh line).getD (line ++ ";branch=".toList ++ fresh)

/-- Any other line of the header block. -/
def bumpLine (U : Lowering) (line : List Char) : List Char := if beginsCseq U line then bumpCseq line else line

/-- In a short name there is no room for a branch. -/
theorem editLine_eq (h : name.length ≤ 3) :
    editLine fresh (name ++ ':' :: value) = name ++ ':' :: edited fresh value := by
  have hname : findSub branchText name = none := by
    cases hfind : findSub branchText name with
    | none => rfl
    | some k =>
        have hfits := findSub_fits hfind
        have hlen : branchText.length = 7 := rfl
        omega
  have hcolon : ':' ∉ branchText := by decide
  rw [editLine, replaceBranch, findSub_append_cons branchText_ne_nil hcolon, hname]
  cases hfind : findSub branchText value with
  | none => simp [edited, hfind]
  | some pos =>
      have hstart : pos + (name.length + 1) + branchText.length = name.length + ((pos + branchText.length) + 1) := by omega
      rw [edited_at hfind]
      simp [hstart, List.take_length_add_append, List.drop_length_add_append]

theorem namesVia_editLine (hU : LowersApart U) (h : isVia U line = true) : namesVia U (editLine fresh line) = true := by
  obtain ⟨name, value, rfl, hcolon, hlen, hvia⟩ := via_parts hU h
  rw [editLine_eq hlen]
  exact (namesVia_append hcolon).mpr ((namesVia_append hcolon).mp hvia)

/-- The CSeq lines that are taken a number further: a number and a method stand in them. -/
def Stepped (U : Lowering) (line : List Char) (n : UInt32) : Prop :=
  beginsCseq U line = true ∧ ∃ num method more, words (afterColon line) = num :: method :: more ∧ parseU32 num = some n

/-- The number in a CSeq line. -/
def cseqOf (line : List Char) : Option UInt32 := (firstWord (trim (afterColon line))).bind parseU32

theorem cseqOf_eq (line : List Char) : cseqOf line = (words (afterColon line)).head?.bind parseU32 := by
  rw [cseqOf, firstWord_eq, words_trim]

/-- What follows a CSeq's name is its value. -/
theorem drop_cseq (hU : LowersApart U) (h : beginsCseq U line = true) : line.drop "cseq:".length = afterColon line := by
  obtain ⟨name, value, rfl, hcolon, hlen, -⟩ := cseq_parts hU h
  have hwhole : "cseq:".length = name.length + 1 := by rw [hlen]; rfl
  rw [(colon_parts hcolon value).2, hwhole, List.drop_length_add_append]
  rfl

theorem bumpLine_stepped (hU : LowersApart U) {n : UInt32} (h : Stepped U line n) :
    namesCseq U (bumpLine U line) = true ∧ cseqOf (bumpLine U line) = some (n + 1) ∧ cseqOf line = some n := by
  obtain ⟨hbegins, num, method, more, hwords, hnum⟩ := h
  have hmethod : IsWord method := isWord_of_mem_words (hwords ▸ List.mem_cons_of_mem _ List.mem_cons_self)
  have hline : bumpLine U line = "CSeq".toList ++ ':' :: ' ' :: (showNat (n + 1).toNat ++ ' ' :: method) := by
    rw [bumpLine, if_pos hbegins, bumpCseq, drop_cseq hU hbegins, hwords]
    dsimp only
    rw [hnum]
    exact List.append_assoc "CSeq: ".toList _ _
  have hcolon : ':' ∉ "CSeq".toList := by decide
  rw [hline]
  refine ⟨(namesCseq_append hcolon).mpr rfl, ?_, ?_⟩
  · rw [cseqOf_eq, (colon_parts hcolon _).2, words_cons_blank (by decide), words_cons (isWord_showNat _)]
    exact parseU32_showNat (n + 1)
  · rw [cseqOf_eq, hwords]
    exact hnum

theorem bumpLine_eq_self (hU : LowersApart U) (h : ∀ n, ¬ Stepped U line n) : bumpLine U line = line := by
  rw [bumpLine]
  split
  next hbegins =>
    rw [bumpCseq, drop_cseq hU hbegins]
    split
    next num method more hwords =>
      cases hnum : parseU32 num with
      | none => rfl
      | some n => exact absurd ⟨hbegins, num, method, more, hwords, hnum⟩ (h n)
    next => rfl
  next => rfl

/-- A line keeps its name. -/
theorem names_bumpLine (hU : LowersApart U) (line : List Char) :
    namesVia U (bumpLine U line) = namesVia U line ∧ namesCseq U (bumpLine U line) = namesCseq U line := by
  by_cases hstep : ∃ n, Stepped U line n
  · obtain ⟨n, hn⟩ := hstep
    have hbump := (bumpLine_stepped hU hn).1
    obtain ⟨-, -, -, -, -, hline⟩ := cseq_parts hU hn.1
    have hother {l : List Char} (hl : namesCseq U l = true) : namesVia U l = false :=
      Bool.eq_false_of_not_eq_true fun hvia => by simp [not_namesCseq_of_via hvia] at hl
    rw [hbump, hline, hother hbump, hother hline]
    exact ⟨rfl, rfl⟩
  · rw [bumpLine_eq_self hU (not_exists.mp hstep)]
    exact ⟨rfl, rfl⟩

end Lines

section Loops

variable {U : Lowering} {fresh : List Char}

theorem renewLines_cons (done : Bool) (line : List Char) (rest : List (List Char)) :
    renewLines U fresh done (line :: rest) =
      if !done && isVia U line then editLine fresh line :: renewLines U fresh true rest
      else bumpLine U line :: renewLines U fresh done rest := by
  rw [renewLines, bumpLine, beginsCseq]
  simp only [decide_eq_true_eq]
  split_ifs <;> rfl

/-- What becomes of a header line. -/
inductive Turned (U : Lowering) (fresh line : List Char) : List Char → Prop
  | edited : isVia U line = true → Turned U fresh line (editLine fresh line)
  | bumped : Turned U fresh line (bumpLine U line)

theorem turned_renewLines (done : Bool) (ls : List (List Char)) :
    List.Forall₂ (Turned U fresh) ls (renewLines U fresh done ls) := by
  induction ls generalizing done with
  | nil => exact .nil
  | cons line rest ih =>
      rw [renewLines_cons]
      split
      next hvia => exact .cons (.edited (Bool.and_eq_true_iff.mp hvia).2) (ih true)
      next => exact .cons .bumped (ih done)

theorem renewLines_at (done : Bool) (front : List (List Char)) (line : List Char) (back : List (List Char)) :
    (renewLines U fresh done (front ++ line :: back))[front.length]? =
      some (if !done && front.all (!isVia U ·) && isVia U line then editLine fresh line else bumpLine U line) := by
  induction front generalizing done with
  | nil =>
      rw [List.nil_append, renewLines_cons, List.all_nil, Bool.and_true]
      split_ifs <;> rfl
  | cons first front ih =>
      rw [List.cons_append, renewLines_cons, List.all_cons]
      split
      next hvia =>
        obtain ⟨hdone, hfirst⟩ := Bool.and_eq_true_iff.mp hvia
        rw [List.length_cons, List.getElem?_cons_succ, ih true, hfirst]
        simp
      next hvia =>
        rw [List.length_cons, List.getElem?_cons_succ, ih done]
        cases done with
        | true => rfl
        | false =>
            have hfirst : isVia U first = false := by simpa using hvia
            rw [hfirst]
            rfl

/-- The first line that names a Via gets the branch, if it is taken for one. -/
theorem find_renewLines (hU : LowersApart U) (ls : List (List Char)) :
    (renewLines U fresh false ls).find? (namesVia U) =
      (ls.find? (namesVia U)).map fun line => if isVia U line then editLine fresh line else line := by
  induction ls with
  | nil => rfl
  | cons line rest ih =>
      rw [renewLines_cons, Bool.not_false, Bool.true_and, List.find?_cons]
      split
      next hvia =>
        obtain ⟨-, -, -, -, -, hnames⟩ := via_parts hU hvia
        rw [List.find?_cons_of_pos (namesVia_editLine hU hvia), hnames, Option.map_some, if_pos hvia]
      next hvia =>
        rw [List.find?_cons, (names_bumpLine hU line).1, ih]
        cases hnames : namesVia U line with
        | false => rfl
        | true =>
            have hstep (n : UInt32) : ¬ Stepped U line n := by
              rintro ⟨hbegins, -⟩
              obtain ⟨-, -, -, -, -, hcseq⟩ := cseq_parts hU hbegins
              rw [not_namesCseq_of_via hnames] at hcseq
              cases hcseq
            rw [bumpLine_eq_self hU hstep, Option.map_some, if_neg hvia]

variable {line out : List Char}

theorem Turned.ne_nil (hU : LowersApart U) (h : Turned U fresh line out) (hline : line ≠ []) : out ≠ [] := by
  cases h with
  | edited hvia =>
      obtain ⟨name, value, rfl, -, hlen, -⟩ := via_parts hU hvia
      rw [editLine_eq hlen]
      simp
  | bumped =>
      by_cases hstep : ∃ n, Stepped U line n
      · obtain ⟨n, hn⟩ := hstep
        rintro hnil
        have hnames := (bumpLine_stepped hU hn).1
        rw [hnil] at hnames
        cases hnames
      · rwa [bumpLine_eq_self hU (not_exists.mp hstep)]

theorem turned_ne_nil (hU : LowersApart U) {ls es : List (List Char)} (h : List.Forall₂ (Turned U fresh) ls es)
    (hls : ∀ l ∈ ls, l ≠ []) : ∀ e ∈ es, e ≠ [] := by
  induction h with
  | nil => exact hls
  | cons hturn _ ih =>
      rw [List.forall_mem_cons] at hls ⊢
      exact ⟨hturn.ne_nil hU hls.1, ih hls.2⟩

theorem Turned.namesCseq (hU : LowersApart U) (h : Turned U fresh line out) :
    RenewedLines.namesCseq U out = RenewedLines.namesCseq U line ∧
      (RenewedLines.namesCseq U line = true → out = bumpLine U line) := by
  cases h with
  | edited hvia =>
      obtain ⟨-, -, -, -, -, hnames⟩ := via_parts hU hvia
      rw [not_namesCseq_of_via hnames, not_namesCseq_of_via (namesVia_editLine hU hvia)]
      exact ⟨rfl, nofun⟩
  | bumped => exact ⟨(names_bumpLine hU line).2, fun _ => rfl⟩

/-- The last line that names a CSeq is the last one after the renewal. -/
theorem find_last_turned (hU : LowersApart U) {ls es : List (List Char)} (h : List.Forall₂ (Turned U fresh) ls es) :
    es.reverse.find? (namesCseq U) = (ls.reverse.find? (namesCseq U)).map (bumpLine U) := by
  have hrev : List.Forall₂ (Turned U fresh) ls.reverse es.reverse := List.rel_reverse h
  generalize ls.reverse = ls at hrev ⊢
  generalize es.reverse = es at hrev ⊢
  induction hrev with
  | nil => rfl
  | @cons line out _ _ hturn _ ih =>
      obtain ⟨hnames, hbump⟩ := hturn.namesCseq hU
      rw [List.find?_cons, List.find?_cons, hnames]
      cases hline : namesCseq U line with
      | true => rw [hbump hline]; rfl
      | false => exact ih

end Loops

section Fields

variable {U : Lowering} {fresh : List Char} {f : IdentityFields}

/-- The fields that a new transaction keeps. -/
def kept (f : IdentityFields) : IdentityFields := { f with topVia := none, cseq := none }

theorem eq_of_kept {g : IdentityFields} (h : kept f = kept g) : f = { g with topVia := f.topVia, cseq := f.cseq } := by
  obtain ⟨-, hfrom, hto, hcall, -, hroutes⟩ := IdentityFields.mk.inj h
  cases f
  cases g
  cases hfrom
  cases hto
  cases hcall
  cases hroutes
  rfl

theorem setField_cseq (value : List Char) (f : IdentityFields) :
    setField "cseq".toList value f = { f with cseq := (firstWord value).bind parseU32 } := by
  have hvia : ¬ (("cseq".toList = "via".toList ∨ "cseq".toList = "v".toList) ∧ f.topVia = none) :=
    fun h => absurd h.1 (by decide)
  unfold setField
  rw [if_neg hvia, if_neg (by decide), if_neg (by decide), if_neg (by decide), if_pos rfl]

theorem setField_via {lower : List Char} (h : lower = "via".toList ∨ lower = "v".toList) (value : List Char)
    (f : IdentityFields) : setField lower value f = { f with topVia := f.topVia <|> some value } := by
  have hother : ∀ name ∈ ["from".toList, "f".toList, "to".toList, "t".toList, "call-id".toList, "i".toList,
      "cseq".toList, "route".toList], lower ≠ name := by
    rcases h with rfl | rfl
    · decide
    · decide
  simp only [List.forall_mem_cons] at hother
  obtain ⟨hfrom, hf, hto, ht, hcall, hi, hcseq, hroute, -⟩ := hother
  unfold setField
  by_cases htop : f.topVia = none
  · rw [if_pos ⟨h, htop⟩, htop]
    rfl
  · have hvia : ¬ ((lower = "via".toList ∨ lower = "v".toList) ∧ f.topVia = none) := fun h => htop h.2
    obtain ⟨v, hv⟩ := Option.ne_none_iff_exists'.mp htop
    rw [if_neg hvia, if_neg (not_or.mpr ⟨hfrom, hf⟩), if_neg (not_or.mpr ⟨hto, ht⟩),
      if_neg (not_or.mpr ⟨hcall, hi⟩), if_neg hcseq, if_neg hroute, hv, Option.orElse_eq_orElse, Option.orElse_eq_or,
      Option.some_or, ← hv]

theorem setField_other {lower : List Char} (hvia : ¬ (lower = "via".toList ∨ lower = "v".toList))
    (hcseq : lower ≠ "cseq".toList) (value : List Char) (f : IdentityFields) :
    kept (setField lower value f) = setField lower value (kept f) ∧ (setField lower value f).cseq = f.cseq := by
  have hskip (g : IdentityFields) : ¬ ((lower = "via".toList ∨ lower = "v".toList) ∧ g.topVia = none) :=
    fun h => hvia h.1
  unfold setField
  rw [if_neg (hskip f), if_neg (hskip (kept f)), if_neg hcseq, if_neg hcseq]
  split_ifs <;> exact ⟨rfl, rfl⟩

/-- A line that names a Via or a CSeq has nothing else in it. -/
theorem kept_readNamed {line : List Char} (h : namesVia U line = true ∨ namesCseq U line = true) (f : IdentityFields) :
    kept (readIdentityLine U f line) = kept f := by
  have hcolon : ':' ∈ line := h.elim (fun hvia => (namesVia_iff.mp hvia).1) fun hcseq => (of_decide_eq_true hcseq).1
  obtain ⟨name, value, hname, rfl⟩ := exists_colon_parts hcolon
  rw [readIdentityLine_header hname]
  rcases h with hvia | hcseq
  · rw [setField_via ((namesVia_append hname).mp hvia)]
    rfl
  · rw [(namesCseq_append hname).mp hcseq, setField_cseq]
    rfl

/-- Every other line says what it says whatever the Via and the CSeq are. -/
theorem readLine_other {line : List Char} (hvia : namesVia U line = false) (hcseq : namesCseq U line = false)
    (f : IdentityFields) : kept (readIdentityLine U f line) = readIdentityLine U (kept f) line ∧
      (readIdentityLine U f line).cseq = f.cseq := by
  by_cases hcolon : ':' ∈ line
  · obtain ⟨name, value, hname, rfl⟩ := exists_colon_parts hcolon
    rw [readIdentityLine_header hname, readIdentityLine_header hname]
    apply setField_other
    · exact fun h => Bool.false_ne_true (hvia.symm.trans ((namesVia_append hname).mpr h))
    · exact fun h => Bool.false_ne_true (hcseq.symm.trans ((namesCseq_append hname).mpr h))
  · rw [readIdentityLine_other hcolon, readIdentityLine_other hcolon]
    exact ⟨rfl, rfl⟩

theorem kept_readLine (line : List Char) {g : IdentityFields} (h : kept f = kept g) :
    kept (readIdentityLine U f line) = kept (readIdentityLine U g line) := by
  by_cases hnamed : namesVia U line = true ∨ namesCseq U line = true
  · rw [kept_readNamed hnamed, kept_readNamed hnamed, h]
  · obtain ⟨hvia, hcseq⟩ := not_or.mp hnamed
    rw [(readLine_other (Bool.eq_false_of_not_eq_true hvia) (Bool.eq_false_of_not_eq_true hcseq) f).1, h,
      (readLine_other (Bool.eq_false_of_not_eq_true hvia) (Bool.eq_false_of_not_eq_true hcseq) g).1]

/-- A renewed line is read for the same other fields. -/
theorem Turned.kept (hU : LowersApart U) {line out : List Char} (h : Turned U fresh line out) {g : IdentityFields}
    (hfields : RenewedLines.kept f = RenewedLines.kept g) :
    RenewedLines.kept (readIdentityLine U f out) = RenewedLines.kept (readIdentityLine U g line) := by
  cases h with
  | edited hvia =>
      obtain ⟨-, -, -, -, -, hnames⟩ := via_parts hU hvia
      rw [kept_readNamed (.inl (namesVia_editLine hU hvia)), kept_readNamed (.inl hnames), hfields]
  | bumped =>
      by_cases hstep : ∃ n, Stepped U line n
      · obtain ⟨n, hn⟩ := hstep
        obtain ⟨-, -, -, -, -, hnames⟩ := cseq_parts hU hn.1
        rw [kept_readNamed (.inr (bumpLine_stepped hU hn).1), kept_readNamed (.inr hnames), hfields]
      · rw [bumpLine_eq_self hU (not_exists.mp hstep)]
        exact kept_readLine line hfields

theorem kept_readLines (hU : LowersApart U) {ls es : List (List Char)} (h : List.Forall₂ (Turned U fresh) ls es)
    {g : IdentityFields} (hfields : kept f = kept g) :
    kept (es.foldl (readIdentityLine U) f) = kept (ls.foldl (readIdentityLine U) g) := by
  induction h generalizing f g with
  | nil => exact hfields
  | cons hturn _ ih => exact ih (hturn.kept hU hfields)

theorem cseq_readLine (f : IdentityFields) (line : List Char) :
    (readIdentityLine U f line).cseq = if namesCseq U line then cseqOf line else f.cseq := by
  by_cases hcseq : namesCseq U line = true
  · obtain ⟨name, value, hname, rfl⟩ := exists_colon_parts (of_decide_eq_true hcseq).1
    rw [if_pos hcseq, readIdentityLine_header hname, (namesCseq_append hname).mp hcseq, setField_cseq, cseqOf,
      (colon_parts hname value).2]
  · rw [if_neg hcseq]
    by_cases hvia : namesVia U line = true
    · obtain ⟨name, value, hname, rfl⟩ := exists_colon_parts (namesVia_iff.mp hvia).1
      rw [readIdentityLine_header hname, setField_via ((namesVia_append hname).mp hvia)]
    · exact (readLine_other (Bool.eq_false_of_not_eq_true hvia) (Bool.eq_false_of_not_eq_true hcseq) f).2

/-- The number that is found is that of the last line that names a CSeq. -/
theorem cseq_readLines (ls : List (List Char)) :
    (ls.foldl (readIdentityLine U) f).cseq =
      ((ls.reverse.find? (namesCseq U)).map cseqOf).getD f.cseq := by
  induction ls using List.reverseRecOn with
  | nil => rfl
  | append_singleton front line ih =>
      rw [List.foldl_append, List.reverse_append, List.reverse_singleton, List.singleton_append, List.find?_cons]
      rw [List.foldl_cons, List.foldl_nil, cseq_readLine, ih]
      cases namesCseq U line <;> rfl

end Fields

section Heads

variable {U : Lowering} {fresh raw : List Char}

/-- The header block ends in an empty line, or the text does not end in a line end. -/
def Closed (raw : List Char) : Prop := findSub crlfCrlf raw ≠ none ∨ ¬ crlf <:+ raw

/-- The lines before an empty one, and the text that they make with those after it. -/
theorem exists_empty (text : List Char) :
    (splitCrlf text).tail.takeWhile (· ≠ []) = (splitCrlf text).tail ∨
      ∃ back, (splitCrlf text).tail = (splitCrlf text).tail.takeWhile (· ≠ []) ++ [] :: back ∧
        text = joinLines (firstLine text) ((splitCrlf text).tail.takeWhile (· ≠ [])) ++
          '\r' :: '\n' :: joinLines [] back := by
  have hparts := List.takeWhile_append_dropWhile (p := fun l : List Char => decide (l ≠ [])) (l := (splitCrlf text).tail)
  have hjoin := joinLines_splitCrlf text
  cases hdrop : (splitCrlf text).tail.dropWhile (· ≠ []) with
  | nil =>
      rw [hdrop, List.append_nil] at hparts
      exact .inl hparts
  | cons line back =>
      have hline : line = [] := by
        have hhead := List.head?_dropWhile_not (fun l : List Char => decide (l ≠ [])) (splitCrlf text).tail
        rw [hdrop] at hhead
        simpa using hhead
      rw [hdrop, hline] at hparts
      refine .inr ⟨back, hparts.symm, ?_⟩
      rw [← joinLines_middle, hparts, hjoin]

theorem firstLine_append (text rest : List Char) : firstLine (text ++ '\r' :: '\n' :: rest) = firstLine text := by
  rw [firstLine, splitCrlf_crlf, splitCrlf_eq text]
  rfl

/-- The first line of the header block is that of the message. -/
theorem firstLine_head (raw : List Char) : firstLine (splitHead raw).1 = firstLine raw := by
  unfold splitHead
  split
  next pos hpos =>
    have hraw := firstLine_append (raw.take pos) ('\r' :: '\n' :: raw.drop (pos + 4))
    rw [← findSub_split hpos] at hraw
    exact hraw.symm
  next => rfl

/-- Without an empty line after it, an empty line is the last one. -/
theorem last_of_not_found {front : List Char} {back : List (List Char)}
    (h : findSub crlfCrlf (front ++ '\r' :: '\n' :: joinLines [] back) = none) : back = [] := by
  cases back with
  | nil => rfl
  | cons line back =>
      obtain ⟨k, -, hfound⟩ := exists_findSub crlfCrlf front (joinLines line back)
      exact absurd (h.symm.trans hfound) nofun

/-- A header block with an empty line inside would have ended there. -/
theorem not_empty_of_found {pos : Nat} (hpos : findSub crlfCrlf raw = some pos) (front : List Char)
    (back : List (List Char)) : raw.take pos ≠ front ++ '\r' :: '\n' :: joinLines [] back := by
  intro htext
  have hlen := congrArg List.length htext
  rw [List.length_take_of_le (findSub_eq_some hpos).1, List.length_append, List.length_cons] at hlen
  obtain ⟨more, hmore⟩ : ∃ more, joinLines [] back ++ '\r' :: '\n' :: '\r' :: '\n' :: raw.drop (pos + 4) =
      '\r' :: '\n' :: more := by
    cases back with
    | nil => exact ⟨_, rfl⟩
    | cons line back => exact ⟨joinLines line back ++ _, rfl⟩
  have hraw : raw = front ++ (crlfCrlf ++ more) := by
    rw [findSub_split hpos, htext, List.append_assoc, List.cons_append, List.cons_append, hmore]
    rfl
  obtain ⟨k, hk, hfound⟩ := exists_findSub crlfCrlf front more
  rw [← hraw, hpos] at hfound
  cases hfound
  omega

theorem lines_of_closed (h : Closed raw) : (splitCrlf (splitHead raw).1).tail = headerLines raw := by
  rw [headerLines_head, List.drop_one]
  rcases exists_empty (splitHead raw).1 with hnone | ⟨back, -, htext⟩
  · exact hnone.symm
  · exfalso
    cases hfind : findSub crlfCrlf raw with
    | some pos =>
        have hhead : (splitHead raw).1 = raw.take pos := by rw [splitHead, hfind]
        exact not_empty_of_found hfind _ back (hhead ▸ htext)
    | none =>
        have hhead : (splitHead raw).1 = raw := by rw [splitHead, hfind]
        rw [hhead] at htext
        obtain rfl := last_of_not_found (htext ▸ hfind)
        exact (h.resolve_left fun hsome => hsome hfind) ⟨_, htext.symm⟩

theorem lines_of_open (h : ¬ Closed raw) :
    (splitCrlf (splitHead raw).1).tail = headerLines raw ++ [[]] ∧ (splitHead raw).2 = [] := by
  obtain ⟨hnone, hends⟩ := not_or.mp h
  have hfind : findSub crlfCrlf raw = none := not_not.mp hnone
  have hhead : splitHead raw = (raw, []) := by rw [splitHead, hfind]
  rw [headerLines_head, hhead, List.drop_one]
  refine ⟨?_, rfl⟩
  rcases exists_empty raw with hall | ⟨back, hlines, htext⟩
  · obtain ⟨text, rfl⟩ := not_not.mp hends
    have htail : (splitCrlf (text ++ crlf)).tail = (splitCrlf text).tail ++ [[]] := by
      have hsplit : splitCrlf (text ++ crlf) = splitCrlf text ++ [[]] := splitCrlf_crlf text []
      rw [hsplit, splitCrlf_eq text]
      rfl
    have hlast := List.takeWhile_eq_self_iff.mp hall [] (htail ▸ List.mem_append_right _ List.mem_cons_self)
    exact absurd rfl (of_decide_eq_true hlast)
  · obtain rfl := last_of_not_found (htext ▸ hfind)
    exact hlines

theorem renewLines_empty (done : Bool) (ls : List (List Char)) :
    renewLines U fresh done (ls ++ [[]]) = renewLines U fresh done ls ++ [[]] := by
  induction ls generalizing done with
  | nil => cases done <;> rfl
  | cons line rest ih =>
      rw [List.cons_append, renewLines_cons, renewLines_cons, ih, ih]
      split <;> rfl

/-- The renewed message: the lines of the header block, and what comes after them. -/
theorem renew_eq (U : Lowering) (fresh raw : List Char) : ∃ body,
    renewInviteTransaction U fresh raw = joinHead (firstLine raw :: renewLines U fresh false (headerLines raw)) body ∧
      (body = (splitHead raw).2 ↔ Closed raw) := by
  have hrenew : renewInviteTransaction U fresh raw =
      joinHead (firstLine raw :: renewLines U fresh false (splitCrlf (splitHead raw).1).tail) (splitHead raw).2 := by
    have hsplit := splitCrlf_eq (splitHead raw).1
    rw [firstLine_head] at hsplit
    unfold renewInviteTransaction
    dsimp only
    cases hlines : splitCrlf (splitHead raw).1 with
    | nil => exact absurd hlines (splitCrlf_ne_nil _)
    | cons first rest =>
        rw [hlines] at hsplit
        rw [(List.cons.inj hsplit).1]
        rfl
  by_cases hclosed : Closed raw
  · exact ⟨(splitHead raw).2, by rw [hrenew, lines_of_closed hclosed], iff_of_true rfl hclosed⟩
  · obtain ⟨hlines, hbody⟩ := lines_of_open hclosed
    refine ⟨crlf, ?_, iff_of_false ?_ hclosed⟩
    · rw [hrenew, hlines, hbody, renewLines_empty, joinHead, joinHead, joinLines_middle]
      simp [joinLines, crlfCrlf, crlf]
    · rw [hbody]
      exact List.cons_ne_nil _ _

end Heads

end NixiSbc.RenewedLines
