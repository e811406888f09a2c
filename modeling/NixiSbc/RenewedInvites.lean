import NixiSbc.RenewedLines

namespace NixiSbc.RenewedInvites

open TextScan TextFields TextLines TextWords TextSearch RawSip SipBuilder SipRender CrlfLines ViaReadings InviteCopies
open InviteTexts CredentialLines ViaParams RenewedLines
open BuiltRequests (endsBranch endsBranch_newBranch)

section Renewals

variable {U : Lowering} {fresh raw : List Char} {id : InviteIdentity}

/-- A branch that ends where it ends in a Via. -/
structure Token (fresh : List Char) : Prop where
  ne_nil : fresh ≠ []
  within : ∀ c ∈ fresh, endsBranch c = false

/-- The INVITE of a new transaction: its branch and its number are new, and nothing else is. -/
structure Renewed (U : Lowering) (fresh raw : List Char) (id : InviteIdentity) (out : List Char) : Prop where
  identity : ∃ topVia, parseInviteIdentity U out = some { id with topVia, cseq := id.cseq + 1 }
  number : (id.cseq + 1).toNat = id.cseq.toNat + 1
  body : (splitHead out).2 = (splitHead raw).2
  branch : topViaBranch U out = some fresh
  via : ∃ name value, ':' ∉ name ∧ (headerLines raw).find? (namesVia U) = some (name ++ ':' :: value) ∧
    (headerLines out).find? (namesVia U) = some (name ++ ':' :: freshened fresh value)
  count : (headerLines out).length = (headerLines raw).length
  others : ∀ front line back, headerLines raw = front ++ line :: back →
    (namesVia U line = true ∧ ∀ l ∈ front, namesVia U l = false) ∨
      (namesCseq U line = true ∧ ∀ l ∈ back, namesCseq U l = false) ∨
        (headerLines out)[front.length]? = some line

/-- The top Via line and the CSeq line that counts are read where they are written, and no other is. -/
structure Renewable (U : Lowering) (raw : List Char) (id : InviteIdentity) : Prop where
  number : id.cseq.toNat + 1 < 2 ^ 32
  closed : Closed raw
  via : ∀ line, (headerLines raw).find? (namesVia U) = some line → isVia U line = true ∧ Direct (afterColon line)
  cseq : ∀ front line back, headerLines raw = front ++ line :: back →
    ((∃ n, Stepped U line n) ↔ namesCseq U line = true ∧ ∀ l ∈ back, namesCseq U l = false)

theorem Token.not_blank (h : Token fresh) : ∀ c ∈ fresh, isWhiteSpace c = false := by
  intro c hc
  have hend := h.within c hc
  rw [endsBranch, decide_eq_false_iff_not, not_or, not_or] at hend
  exact Bool.eq_false_of_not_eq_true hend.2.2

theorem Token.branch (h : Token fresh) : Branch fresh :=
  { plain_of_not_blank h.not_blank with ne_nil := h.ne_nil }

theorem token_newBranch (draw : UInt64) : Token (newBranch draw) :=
  ⟨List.cons_ne_nil _ _, fun _ hc => endsBranch_newBranch hc⟩

theorem branchAt_token (h : Token fresh) {front tail : List Char} {pos : Nat}
    (hfront : front.length = pos + branchText.length) (htail : ∀ c, tail.head? = some c → endsBranch c = true) :
    branchAt (front ++ fresh ++ tail) pos = some fresh := by
  have hword : (fresh ++ tail).takeWhile (fun c => !endsBranch c) = fresh := by
    rw [List.takeWhile_append_of_pos fun c hc => by simp [h.within c hc]]
    cases tail with
    | nil => exact List.append_nil fresh
    | cons c rest => rw [List.takeWhile_cons_of_neg (by simp [htail c rfl]), List.append_nil]
  have htrim : trim fresh = fresh :=
    trim_eq_self (fun c hc => h.not_blank c (List.mem_of_mem_head? hc))
      fun c hc => h.not_blank c (List.mem_of_getLast? hc)
  rw [branchAt, List.append_assoc, ← hfront, List.drop_left, hword, htrim]
  cases hcases : fresh with
  | nil => exact absurd hcases h.ne_nil
  | cons => rfl

/-- The fresh branch is the one that is found. -/
theorem branchOf_edited (h : Token fresh) (value : List Char) : branchOf (edited fresh value) = some fresh := by
  rw [branchOf_eq, readBranch, place, List.map_id]
  cases hfind : findSub branchText value with
  | none =>
      have hpos : findSub branchText (value ++ ";branch=".toList ++ fresh) = some (value.length + 1) := by
        have hsplit : value ++ ";branch=".toList ++ fresh = value ++ ';' :: (branchText ++ fresh) := by simp [branchText]
        have hhead : findSub branchText (branchText ++ fresh) = some 0 :=
          findSub_of_first (List.prefix_append _ _) (Nat.zero_le _) fun _ h => absurd h (Nat.not_lt_zero _)
        rw [hsplit, findSub_append_cons branchText_ne_nil semicolon_apart, hfind, hhead, Option.map_some, Nat.zero_add]
        rfl
      have hat : branchAt (value ++ ";branch=".toList ++ fresh ++ []) (value.length + 1) = some fresh :=
        branchAt_token h (by simp [branchText]) fun c hc => by cases hc
      rw [List.append_nil] at hat
      rw [edited, hfind]
      dsimp only
      rw [hpos]
      exact hat
  | some pos =>
      rw [edited_at hfind, List.append_assoc, findSub_take_append hfind, Option.bind_some, ← List.append_assoc]
      apply branchAt_token h
      · exact List.length_take_of_le (findSub_fits hfind)
      · intro c hc
        have hstop := List.head?_dropWhile_not (fun c => !decide (c = ';' ∨ c = ',')) (value.drop (pos + branchText.length))
        rw [hc] at hstop
        rw [endsBranch, decide_eq_true_iff, ← or_assoc]
        exact .inl (or_iff_not_imp_left.mpr (by simpa using hstop))

/-- The parts of the message that are made. -/
structure Parts (U : Lowering) (fresh raw out : List Char) : Prop where
  first : firstLine out = firstLine raw
  lines : headerLines out = renewLines U fresh false (headerLines raw)
  body : (splitHead out).2 = (splitHead raw).2 ↔ Closed raw

theorem oneLine_headers (raw : List Char) : ∀ l ∈ headerLines raw, OneLine l ∧ l ≠ [] := by
  intro l hl
  refine ⟨oneLine_headerLines hl, ?_⟩
  rw [headerLines] at hl
  have hne := List.mem_takeWhile_imp hl
  exact of_decide_eq_true hne

theorem parts_renew (hU : LowersApart U) (h : Token fresh) (raw : List Char) :
    Parts U fresh raw (renewInviteTransaction U fresh raw) := by
  obtain ⟨body, hout, hbody⟩ := renew_eq U fresh raw
  have hraw := oneLine_headers raw
  have hone : ∀ l ∈ renewLines U fresh false (headerLines raw), OneLine l :=
    oneLine_of_edited (edited_renewLines h.branch false fun l hl => (hraw l hl).1) fun l hl => (hraw l hl).1
  have hne : ∀ l ∈ renewLines U fresh false (headerLines raw), l ≠ [] :=
    turned_ne_nil hU (turned_renewLines false _) fun l hl => (hraw l hl).2
  have hfirst : OneLine (firstLine raw) := by
    have hmem : firstLine raw ∈ splitCrlf raw := splitCrlf_eq raw ▸ List.mem_cons_self
    exact oneLine_of_mem_splitCrlf hmem
  have hhead : splitHead (renewInviteTransaction U fresh raw) =
      (joinLines (firstLine raw) (renewLines U fresh false (headerLines raw)), body) := by
    rw [hout, joinHead, splitHead, findSub_joinLines body hfirst fun l hl => ⟨hne l hl, hone l hl⟩]
    dsimp only
    have hlen : (joinLines (firstLine raw) (renewLines U fresh false (headerLines raw))).length + 4 =
        (joinLines (firstLine raw) (renewLines U fresh false (headerLines raw)) ++ crlfCrlf).length := by
      rw [List.length_append]
      rfl
    rw [hlen, List.drop_left, List.append_assoc, List.take_left]
  constructor
  case first =>
    have hjoin := splitCrlf_joinLines hfirst hone
    rw [hout, joinHead, List.append_assoc]
    change firstLine (joinLines _ _ ++ '\r' :: '\n' :: ('\r' :: '\n' :: body)) = firstLine raw
    rw [firstLine_append, firstLine, hjoin]
    rfl
  case lines =>
    rw [hout, headerLines_lines body hfirst hone]
    exact List.takeWhile_eq_self_iff.mpr fun l hl => decide_eq_true (hne l hl)
  case body =>
    rw [hhead]
    exact hbody

/-- Where the number of a request stands. -/
theorem last_cseq (h : parseInviteIdentity U raw = some id) : ∃ front line back,
    headerLines raw = front ++ line :: back ∧ namesCseq U line = true ∧ (∀ l ∈ back, namesCseq U l = false) ∧
      (headerLines raw).reverse.find? (namesCseq U) = some line ∧ cseqOf line = some id.cseq := by
  rw [parseInviteIdentity_eq, readRequest_eq_some] at h
  have hfields : (fieldsOf U raw).cseq = some id.cseq := by rw [h.2]; rfl
  rw [fieldsOf, cseq_readLines] at hfields
  cases hfind : (headerLines raw).reverse.find? (namesCseq U) with
  | none => rw [hfind] at hfields; cases hfields
  | some line =>
      rw [hfind] at hfields
      obtain ⟨hnames, after, before, hsplit, hafter⟩ := List.find?_eq_some_iff_append.mp hfind
      refine ⟨before.reverse, line, after.reverse, ?_, hnames, ?_, rfl, hfields⟩
      · rw [← List.reverse_reverse (headerLines raw), hsplit]
        simp
      · exact fun l hl => by simpa using hafter l (List.mem_reverse.mp hl)

theorem first_via (h : parseInviteIdentity U raw = some id) :
    ∃ line, (headerLines raw).find? (namesVia U) = some line := by
  rw [parseInviteIdentity_eq, readRequest_eq_some] at h
  have hfields : (fieldsOf U raw).topVia = some id.topVia := by rw [h.2]; rfl
  rw [fieldsOf, topVia_readLines] at hfields
  obtain ⟨line, hfind, -⟩ := Option.map_eq_some_iff.mp (hfields : Option.map _ _ = _)
  exact ⟨line, hfind⟩

variable {out : List Char}

/-- The number that is read from the renewed message is that of the CSeq line as it has become. -/
theorem Parts.cseq (hU : LowersApart U) (hparts : Parts U fresh raw out) {line : List Char}
    (hfind : (headerLines raw).reverse.find? (namesCseq U) = some line) :
    (fieldsOf U out).cseq = cseqOf (bumpLine U line) := by
  rw [fieldsOf, cseq_readLines, hparts.lines, find_last_turned hU (turned_renewLines false _), hfind]
  rfl

/-- What it is read for but for its Via and its number. -/
theorem Parts.identity (hU : LowersApart U) (hparts : Parts U fresh raw out)
    (h : parseInviteIdentity U raw = some id) {n : UInt32} (hcseq : (fieldsOf U out).cseq = some n) :
    ∃ topVia, parseInviteIdentity U out = some { id with topVia, cseq := n } := by
  obtain ⟨line, hvia⟩ := first_via h
  have htop : ∃ topVia, (fieldsOf U out).topVia = some topVia := by
    rw [fieldsOf, topVia_readLines, hparts.lines, find_renewLines hU, hvia]
    exact ⟨_, rfl⟩
  obtain ⟨topVia, htop⟩ := htop
  rw [parseInviteIdentity_eq, readRequest_eq_some] at h
  have hkept : kept (fieldsOf U out) = kept (allFields id) := by
    rw [fieldsOf, hparts.lines, kept_readLines hU (turned_renewLines false _) rfl]
    exact congrArg kept h.2
  refine ⟨topVia, ?_⟩
  rw [parseInviteIdentity_eq, readRequest_eq_some, hparts.first]
  refine ⟨h.1, ?_⟩
  rw [eq_of_kept hkept, htop, hcseq]
  rfl

/-- The request that is written is a new transaction. -/
theorem renewed_of_renewable (hU : LowersApart U) (hfresh : Token fresh) (h : parseInviteIdentity U raw = some id)
    (hable : Renewable U raw id) : Renewed U fresh raw id (renewInviteTransaction U fresh raw) := by
  have hparts := parts_renew hU hfresh raw
  obtain ⟨front, line, back, hsplit, hnames, hback, hlast, hnumber⟩ := last_cseq h
  obtain ⟨n, hstep⟩ := (hable.cseq front line back hsplit).mpr ⟨hnames, hback⟩
  obtain ⟨-, hnext, hthis⟩ := bumpLine_stepped hU hstep
  obtain rfl : n = id.cseq := Option.some.inj (hthis.symm.trans hnumber)
  obtain ⟨via, hvia⟩ := first_via h
  obtain ⟨his, hdirect⟩ := hable.via via hvia
  obtain ⟨name, value, rfl, hcolon, hlen, -⟩ := via_parts hU his
  rw [(colon_parts hcolon value).2] at hdirect
  have hfind : (headerLines (renewInviteTransaction U fresh raw)).find? (namesVia U) =
      some (name ++ ':' :: edited fresh value) := by
    rw [hparts.lines, find_renewLines hU, hvia, Option.map_some, if_pos his, editLine_eq hlen]
  constructor
  case identity => exact hparts.identity hU h ((hparts.cseq hU hlast).trans hnext)
  case number =>
    rw [UInt32.toNat_add]
    exact Nat.mod_eq_of_lt hable.number
  case body => exact hparts.body.mpr hable.closed
  case branch =>
    rw [topViaBranch_eq, hfind, Option.bind_some, (colon_parts hcolon _).2]
    exact branchOf_edited hfresh value
  case via =>
    rw [edited_of_direct hdirect] at hfind
    exact ⟨name, value, hcolon, hvia, hfind⟩
  case count =>
    rw [hparts.lines]
    exact (@turned_renewLines U fresh false (headerLines raw)).length_eq.symm
  case others =>
    intro front line back hsplit
    rw [hparts.lines, hsplit, renewLines_at]
    by_cases htop : (front.all fun l => !isVia U l) = true ∧ isVia U line = true
    · left
      obtain ⟨-, -, -, -, -, hnames⟩ := via_parts hU htop.2
      refine ⟨hnames, fun l hl => Bool.eq_false_of_not_eq_true fun hl' => ?_⟩
      -- the first line that names a Via would not be taken for one
      obtain ⟨first, hfirst⟩ := Option.isSome_iff_exists.mp (List.find?_isSome.mpr ⟨l, hl, hl'⟩)
      have hall : (headerLines raw).find? (namesVia U) = some first := by
        rw [hsplit, List.find?_append, hfirst]
        rfl
      have hmem := List.all_eq_true.mp htop.1 first (List.mem_of_find?_eq_some hfirst)
      rw [(hable.via first hall).1] at hmem
      cases hmem
    · right
      by_cases hstep : ∃ n, Stepped U line n
      · exact .inl ((hable.cseq front line back hsplit).mp hstep)
      · rw [Bool.not_false, Bool.true_and, if_neg (by simpa using htop), bumpLine_eq_self hU (not_exists.mp hstep)]
        exact .inr rfl

section Needed

variable (h : ∀ draw, Renewed U (newBranch draw) raw id (renewInviteTransaction U (newBranch draw) raw))

include h

theorem isVia_of_renewed (hU : LowersApart U) {line : List Char}
    (hline : (headerLines raw).find? (namesVia U) = some line) : isVia U line = true := by
  by_contra hno
  have hbranch (draw : UInt64) : branchOf (afterColon line) = some (newBranch draw) := by
    have hparts := parts_renew hU (token_newBranch draw) raw
    have hfound := (h draw).branch
    rw [topViaBranch_eq, hparts.lines, find_renewLines hU, hline, Option.map_some, if_neg hno] at hfound
    exact hfound
  exact absurd (Option.some.inj ((hbranch 0).symm.trans (hbranch 1))) (by decide)

theorem direct_of_renewed (hU : LowersApart U) {line : List Char}
    (hline : (headerLines raw).find? (namesVia U) = some line) : Direct (afterColon line) := by
  have his := isVia_of_renewed h hU hline
  obtain ⟨name, value, rfl, hcolon, hlen, -⟩ := via_parts hU his
  rw [(colon_parts hcolon value).2]
  refine direct_of_edited fun draw => ?_
  have hparts := parts_renew hU (token_newBranch draw) raw
  obtain ⟨name', value', hcolon', hraw, hout⟩ := (h draw).via
  rw [hline] at hraw
  have hvalue := congrArg afterColon (Option.some.inj hraw)
  rw [(colon_parts hcolon value).2, (colon_parts hcolon' value').2] at hvalue
  rw [hparts.lines, find_renewLines hU, hline, Option.map_some, if_pos his, editLine_eq hlen] at hout
  have hedited := congrArg afterColon (Option.some.inj hout)
  rw [(colon_parts hcolon _).2, (colon_parts hcolon' _).2] at hedited
  rw [hedited, hvalue]

/-- A line that is taken a number further is the CSeq line that counts. -/
theorem last_of_stepped (hU : LowersApart U) {front back : List (List Char)} {line : List Char} {n : UInt32}
    (hsplit : headerLines raw = front ++ line :: back) (hstep : Stepped U line n) :
    namesCseq U line = true ∧ ∀ l ∈ back, namesCseq U l = false := by
  obtain ⟨-, -, -, -, -, hnames⟩ := cseq_parts hU hstep.1
  rcases (h 0).others front line back hsplit with ⟨hvia, -⟩ | hlast | hsame
  · rw [not_namesCseq_of_via hvia] at hnames
    cases hnames
  · exact hlast
  · exfalso
    have hno : ¬ isVia U line = true := fun his => by
      obtain ⟨-, -, -, -, -, hvia⟩ := via_parts hU his
      rw [not_namesCseq_of_via hvia] at hnames
      cases hnames
    rw [(parts_renew hU (token_newBranch 0) raw).lines, hsplit, renewLines_at,
      if_neg fun hedit => hno (Bool.and_eq_true_iff.mp hedit).2] at hsame
    obtain ⟨-, hnext, hthis⟩ := bumpLine_stepped hU hstep
    rw [Option.some.inj hsame, hthis] at hnext
    have hnum := Option.some.inj hnext
    simp at hnum

theorem stepped_of_last (hU : LowersApart U) (hread : parseInviteIdentity U raw = some id)
    {front back : List (List Char)} {line : List Char} (hsplit : headerLines raw = front ++ line :: back)
    (hnames : namesCseq U line = true) (hback : ∀ l ∈ back, namesCseq U l = false) : ∃ n, Stepped U line n := by
  by_contra hno
  have hfind : (headerLines raw).reverse.find? (namesCseq U) = some line :=
    List.find?_eq_some_iff_append.mpr ⟨hnames, back.reverse, front.reverse, by simp [hsplit],
      fun l hl => by simp [hback l (List.mem_reverse.mp hl)]⟩
  obtain ⟨-, last, -, -, -, -, hlast, hnumber⟩ := last_cseq hread
  obtain rfl := Option.some.inj (hfind.symm.trans hlast)
  obtain ⟨topVia, hout⟩ := (h 0).identity
  rw [parseInviteIdentity_eq, readRequest_eq_some] at hout
  have hcseq := (parts_renew hU (token_newBranch 0) raw).cseq hU hfind
  rw [hout.2, bumpLine_eq_self hU (not_exists.mp hno), hnumber] at hcseq
  have hnum : id.cseq + 1 = id.cseq := Option.some.inj hcseq
  simp at hnum

end Needed

/-- The renewed INVITE is a new transaction for every branch that is drawn when its number has room, its
header block ends, its top Via line is read where it is written, and so is the CSeq line that counts; and only
then. -/
theorem renew_renewed_iff (hU : LowersApart U) (h : parseInviteIdentity U raw = some id) :
    (∀ draw, Renewed U (newBranch draw) raw id (renewInviteTransaction U (newBranch draw) raw)) ↔
      Renewable U raw id := by
  refine ⟨fun hall => ?_, fun hable draw => renewed_of_renewable hU (token_newBranch draw) h hable⟩
  constructor
  case number =>
    have hnumber := (hall 0).number
    have hlt := (id.cseq + 1).toNat_lt
    omega
  case closed => exact (parts_renew hU (token_newBranch 0) raw).body.mp (hall 0).body
  case via => exact fun line hline => ⟨isVia_of_renewed hall hU hline, direct_of_renewed hall hU hline⟩
  case cseq =>
    intro front line back hsplit
    constructor
    · rintro ⟨n, hstep⟩
      exact last_of_stepped hall hU hsplit hstep
    · rintro ⟨hnames, hback⟩
      exact stepped_of_last hall hU h hsplit hnames hback

/-- One CSeq line is the one that counts. -/
theorem cseq_of_one {ls before after : List (List Char)} {own : List Char} {n : UInt32} (hU : LowersApart U)
    (hls : ls = before ++ own :: after) (hown : Stepped U own n)
    (hothers : ∀ l ∈ before ++ after, namesCseq U l = false) (front : List (List Char)) (line : List Char)
    (back : List (List Char)) (hsplit : ls = front ++ line :: back) :
    (∃ n, Stepped U line n) ↔ namesCseq U line = true ∧ ∀ l ∈ back, namesCseq U l = false := by
  have hnamed (hnames : namesCseq U line = true) : line = own ∧ back = after := by
    rw [hls] at hsplit
    rcases List.append_eq_append_iff.mp hsplit with ⟨more, hmore, hrest⟩ | ⟨more, hmore, hrest⟩
    · cases more with
      | nil =>
          obtain ⟨hsame, hback⟩ := List.cons.inj hrest
          exact ⟨hsame.symm, hback.symm⟩
      | cons first more =>
          obtain ⟨-, hafter⟩ := List.cons.inj hrest
          have hno := hothers line (List.mem_append_right _ (hafter ▸ List.mem_append_right _ List.mem_cons_self))
          rw [hno] at hnames
          cases hnames
    · cases more with
      | nil =>
          obtain ⟨hsame, hback⟩ := List.cons.inj hrest
          exact ⟨hsame, hback⟩
      | cons first more =>
          obtain ⟨rfl, -⟩ := List.cons.inj hrest
          have hno := hothers line (List.mem_append_left _ (hmore ▸ List.mem_append_right _ List.mem_cons_self))
          rw [hno] at hnames
          cases hnames
  constructor
  · rintro ⟨n, hstep⟩
    obtain ⟨-, -, -, -, -, hnames⟩ := cseq_parts hU hstep.1
    obtain ⟨-, rfl⟩ := hnamed hnames
    exact ⟨hnames, fun l hl => hothers l (List.mem_append_right _ hl)⟩
  · rintro ⟨hnames, -⟩
    exact ⟨n, (hnamed hnames).1 ▸ hown⟩

theorem lowersApart_asciiOnly : LowersApart asciiOnly :=
  fun _ _ _ hc => .inr (.inr ⟨List.cons_ne_nil _ _, fun _ hd => (List.mem_singleton.mp hd).symm ▸ hc⟩)

/-- Two Vias in one line with a compact name, a comma in quotes and a body. -/
theorem renew_renewed_compact :
    let raw := ("INVITE sip:b SIP/2.0\r\nv: UDP a;x=\"1,2\"; branch=1;rport, UDP c\r\n" ++
      "f: a;tag=1\r\nt: b\r\ni: c\r\nRoute: p\r\nCSEQ:  7  INVITE\r\n\r\nv=0").toList
    ∃ id, parseInviteIdentity asciiOnly raw = some id ∧ id.cseq = 7 ∧
      ∀ draw, Renewed asciiOnly (newBranch draw) raw id (renewInviteTransaction asciiOnly (newBranch draw) raw) := by
  intro raw
  let id : InviteIdentity := ⟨"sip:b".toList, "UDP a;x=\"1,2\"; branch=1;rport, UDP c".toList,
    "a;tag=1".toList, "b".toList, "c".toList, 7, ["p".toList]⟩
  let via := "v: UDP a;x=\"1,2\"; branch=1;rport, UDP c".toList
  let cseq := "CSEQ:  7  INVITE".toList
  -- the text is spelled out first: the kernel is slow at taking it apart
  have hraw : raw = _ :=
    String.toList_append.trans (congrArg₂ (· ++ ·) String.toList_ofList String.toList_ofList)
  have hread : parseInviteIdentity asciiOnly raw = some id := by
    rw [hraw]
    decide +kernel
  have hlines : headerLines raw =
      [via, "f: a;tag=1".toList, "t: b".toList, "i: c".toList, "Route: p".toList] ++ cseq :: [] := by
    rw [hraw]
    decide +kernel
  have hfind : (headerLines raw).find? (namesVia asciiOnly) = some via := by
    rw [hlines]
    decide
  have hdirect : Direct (afterColon via) := by
    have hwithin : " branch=1".toList.all (fun c => c ≠ ';' ∧ c ≠ ',') = true := by decide
    refine .present " UDP a;x=\"1,2\"; branch=1;rport".toList " UDP a".toList ["x=\"1,2\"".toList] " branch=1".toList
      ["rport".toList] [" UDP c".toList] ?_ ?_ ?_ ?_ ?_ ?_ fun c hc => of_decide_eq_true (List.all_eq_true.mp hwithin c hc)
    all_goals decide
  have hstep : Stepped asciiOnly cseq 7 :=
    ⟨by decide, "7".toList, "INVITE".toList, [], by decide, by decide⟩
  have hable : Renewable asciiOnly raw id := by
    constructor
    case number => decide
    case closed =>
      rw [hraw]
      exact .inl (by decide +kernel)
    case via =>
      intro line hline
      obtain rfl := Option.some.inj (hfind.symm.trans hline)
      exact ⟨by decide, hdirect⟩
    case cseq => exact cseq_of_one lowersApart_asciiOnly hlines hstep (by decide)
  exact ⟨id, hread, rfl, (renew_renewed_iff lowersApart_asciiOnly hread).mpr hable⟩

/-- A number without room, and a blank before the colon. -/
theorem renew_not_renewed :
    let raw (cseq : String) : List Char :=
      ("INVITE b SIP/2.0\r\nv: a;branch=1\r\nf: a\r\nt: b\r\ni: c\r\n" ++ cseq ++ "\r\n\r\n").toList
    let fails (cseq : String) (n : UInt32) := ∃ id, parseInviteIdentity asciiOnly (raw cseq) = some id ∧ id.cseq = n ∧
      ¬ Renewed asciiOnly (newBranch 0) (raw cseq) id (renewInviteTransaction asciiOnly (newBranch 0) (raw cseq))
    fails "CSeq: 4294967295 INVITE" 4294967295 ∧ fails "CSeq : 7 INVITE" 7 := by
  intro raw fails
  let id (n : UInt32) : InviteIdentity :=
    ⟨"b".toList, "a;branch=1".toList, "a".toList, "b".toList, "c".toList, n, []⟩
  have hraw (cseq : String) : raw cseq = _ :=
    String.toList_append.trans (congrArg₂ (· ++ ·)
      (String.toList_append.trans (congrArg₂ (· ++ ·) String.toList_ofList rfl)) String.toList_ofList)
  have hroom : parseInviteIdentity asciiOnly (raw "CSeq: 4294967295 INVITE") = some (id 4294967295) := by
    rw [hraw]
    decide +kernel
  have hblank : parseInviteIdentity asciiOnly (raw "CSeq : 7 INVITE") = some (id 7) := by
    rw [hraw]
    decide +kernel
  refine ⟨⟨id 4294967295, hroom, rfl, fun h => ?_⟩, ⟨id 7, hblank, rfl, fun h => ?_⟩⟩
  · exact absurd h.number (by decide)
  · obtain ⟨topVia, hout⟩ := h.identity
    have hkept : (parseInviteIdentity asciiOnly (renewInviteTransaction asciiOnly (newBranch 0) (raw "CSeq : 7 INVITE"))).map
        (·.cseq) = some 7 := by
      rw [hraw]
      decide +kernel
    rw [hout, Option.map_some] at hkept
    have hnum : (8 : UInt32) = 7 := Option.some.inj hkept
    exact absurd hnum (by decide)

end Renewals

end NixiSbc.RenewedInvites
