import NixiSbc.CrlfLines
import NixiSbc.InviteTexts
import Mathlib.Data.List.Chain

namespace NixiSbc.DialledNumber

open RawSip TextScan TextFields TextLines CrlfLines InviteTexts Trunks

/-- The prefix that a trunk takes off a number, and what it puts in its place.
A trunk without a country code rewrites nothing. -/
def rewriteRule (t : TrunkConfig) : Option (List Char × List Char) :=
  t.countryCode.map fun cc =>
    match t.numberFormat with
    | .e164 => (['0'], '+' :: cc)
    | .national => ('+' :: cc, t.nationalPrefix.getD ['0'])
    | .local => ('+' :: cc, [])

/-- The trunk takes its prefix off the first number and thus makes the second. -/
def Rewrites (t : TrunkConfig) (number number' : List Char) : Prop :=
  ∃ strip put rest, rewriteRule t = some (strip, put) ∧ number = strip ++ rest ∧ number' = put ++ rest

/-- Dialling through the trunk does not change the number. -/
def Leaves (t : TrunkConfig) (number : List Char) : Prop :=
  ∀ number', Rewrites t number number' → number' = number

/-- What is read back of a number that was written into a request line. -/
def readBack : List Char → List Char
  | '\r' :: '\n' :: _ => []
  | c :: rest => if c = ' ' ∨ c = '@' ∨ c = ';' then [] else c :: readBack rest
  | [] => []

/-- Neither a space, an at sign, a semicolon nor a line end. -/
def Readable (number : List Char) : Prop := readBack number = number

instance (number : List Char) : Decidable (Readable number) :=
  inferInstanceAs (Decidable (readBack number = number))

/-- The second trunk makes of what the first one dials what it makes of the
number itself: the first one leaves the number alone, or the second one does and
turns the form of the first back into it, or both make the same form of it and
the second one leaves that alone. -/
inductive Agree (number : List Char) (first second : TrunkConfig) : Prop
  | kept (h : Leaves first number)
  | undone {form back : List Char} (h : Rewrites first number form) (hleaves : Leaves second number)
      (hback : Rewrites second form back) (hread : readBack back = number)
  | same {form : List Char} (h : Rewrites first number form) (hsecond : Rewrites second number form)
      (hleaves : Leaves second form)

/-- The dialled user part in the text of an INVITE. -/
def dialled (raw : List Char) : Option (List Char) := (splitCrlf raw).head?.bind dialledUser

/-- The INVITE that `handle_invite` makes for its first trunk: the number of that
trunk in the URI that was called. -/
def firstInvite (t : TrunkConfig) (secure : Bool) (number authority rest : List Char) : List Char :=
  "INVITE ".toList ++ (if secure then "sips:".toList else "sip:".toList) ++
    normalizeNumber t number ++ '@' :: authority ++ " SIP/2.0\r\n".toList ++ rest

/-- The INVITEs of the failovers, each made from the one before; `path` has a
fresh branch for every further trunk. -/
def failovers (U : Lowering) (raw : List Char) :
    List (List Char × TrunkConfig) → List (TrunkConfig × List Char)
  | [] => []
  | (fresh, t) :: path =>
      match retargetInviteForTrunk U fresh raw t with
      | none => []
      | some raw => (t, raw) :: failovers U raw path

theorem normalizeNumber_eq (t : TrunkConfig) (number : List Char) :
    normalizeNumber t number =
      match rewriteRule t with
      | none => number
      | some (strip, put) => if strip <+: number then put ++ number.drop strip.length else number := by
  cases hcc : t.countryCode with
  | none =>
      cases hformat : t.numberFormat with
      | e164 =>
          simp only [normalizeNumber, rewriteRule, hcc, hformat, Option.map_none]
          split
          next => rfl
          next => rfl
          next => rfl
      | national => simp only [normalizeNumber, rewriteRule, hcc, hformat, Option.map_none]
      | «local» => simp only [normalizeNumber, rewriteRule, hcc, hformat, Option.map_none]
  | some cc =>
      cases hformat : t.numberFormat with
      | e164 =>
          simp only [normalizeNumber, rewriteRule, hcc, hformat, Option.map_some]
          split
          next => rw [if_neg (by simp)]
          next => rw [if_pos (by simp)]; rfl
          next hplus hzero =>
            rw [if_neg]
            rintro ⟨rest, rfl⟩
            exact hzero rest rfl
      | national => simp only [normalizeNumber, rewriteRule, hcc, hformat, Option.map_some]
      | «local» => simp only [normalizeNumber, rewriteRule, hcc, hformat, Option.map_some, List.nil_append]

/-- A trunk rewrites the number, or it leaves it. -/
theorem normalizeNumber_cases (t : TrunkConfig) (number : List Char) :
    Rewrites t number (normalizeNumber t number) ∨
      normalizeNumber t number = number ∧ ∀ number', ¬ Rewrites t number number' := by
  rw [normalizeNumber_eq]
  cases hrule : rewriteRule t with
  | none => exact .inr ⟨rfl, fun _ ⟨_, _, _, h, _⟩ => by rw [hrule] at h; cases h⟩
  | some rule =>
      obtain ⟨strip, put⟩ := rule
      by_cases hstrip : strip <+: number
      · obtain ⟨rest, rfl⟩ := hstrip
        refine .inl ⟨strip, put, rest, hrule, rfl, ?_⟩
        simp
      · refine .inr ⟨if_neg hstrip, ?_⟩
        rintro number' ⟨strip', put', rest, h, rfl, -⟩
        rw [hrule] at h
        cases h
        exact hstrip (List.prefix_append _ _)

theorem normalizeNumber_of_rewrites {t : TrunkConfig} {number number' : List Char}
    (h : Rewrites t number number') : normalizeNumber t number = number' := by
  obtain ⟨strip, put, rest, hrule, rfl, rfl⟩ := h
  rw [normalizeNumber_eq, hrule]
  simp

theorem leaves_iff {t : TrunkConfig} {number : List Char} :
    Leaves t number ↔ normalizeNumber t number = number := by
  constructor
  · intro h
    rcases normalizeNumber_cases t number with hr | ⟨heq, -⟩
    · exact h _ hr
    · exact heq
  · intro h number' hr
    rw [← normalizeNumber_of_rewrites hr, h]

theorem rewrites_of_ne {t : TrunkConfig} {number : List Char} (h : normalizeNumber t number ≠ number) :
    Rewrites t number (normalizeNumber t number) :=
  (normalizeNumber_cases t number).resolve_right fun hc => h hc.1

theorem readBack_eq (c : Char) (rest : List Char) :
    readBack (c :: rest) =
      if c = '\r' ∧ rest.head? = some '\n' ∨ c = ' ' ∨ c = '@' ∨ c = ';' then []
      else c :: readBack rest := by
  rw [readBack.eq_def]
  split
  next heq =>
    cases heq
    rw [if_pos (.inl ⟨rfl, rfl⟩)]
  next c' rest' hcrlf heq =>
    cases heq
    have hno : ¬ (c = '\r' ∧ rest.head? = some '\n') := by
      rintro ⟨hc, hhead⟩
      obtain ⟨tail, htail⟩ := List.head?_eq_some_iff.mp hhead
      exact hcrlf tail hc htail
    simp only [or_iff_right hno]
  next heq => cases heq

theorem readBack_cons (c : Char) (rest : List Char) :
    readBack (c :: rest) = [] ∨ readBack (c :: rest) = c :: readBack rest := by
  rw [readBack_eq]
  split
  next => exact .inl rfl
  next => exact .inr rfl

/-- The text begins with what ends a number in a request line. -/
def Ends (text : List Char) : Prop := text ≠ [] ∧ readBack text = []

/-- Nothing behind the end of a number is read. -/
theorem readBack_append_length (text : List Char) {tail : List Char} (h : Ends tail) :
    (readBack (text ++ tail)).length ≤ text.length := by
  induction text with
  | nil => rw [List.nil_append, h.2]
  | cons c rest ih =>
      rcases readBack_cons c (rest ++ tail) with hr | hr
      · rw [List.cons_append, hr]
        exact Nat.zero_le _
      · rw [List.cons_append, hr]
        exact Nat.succ_le_succ ih

theorem readBack_front (text : List Char) : readBack text <+: text := by
  induction text with
  | nil => exact List.prefix_rfl
  | cons c rest ih =>
      rcases readBack_cons c rest with hr | hr
      · rw [hr]
        exact List.nil_prefix
      · rw [hr]
        exact List.cons_prefix_cons.mpr ⟨rfl, ih⟩

/-- When only a part of a text is read, the rest begins with an end. -/
theorem ends_of_readBack_append {text tail : List Char} (hne : tail ≠ [])
    (h : readBack (text ++ tail) = text) : Ends tail := by
  induction text with
  | nil => exact ⟨hne, h⟩
  | cons c rest ih =>
      rcases readBack_cons c (rest ++ tail) with hr | hr
      · rw [List.cons_append, hr] at h
        cases h
      · rw [List.cons_append, hr] at h
        exact ih (List.cons.inj h).2

theorem not_readable_of_ends (text : List Char) {tail : List Char} (h : Ends tail) :
    ¬ Readable (text ++ tail) := by
  intro hread
  have hlen := readBack_append_length text h
  rw [hread, List.length_append] at hlen
  exact h.1 (List.length_eq_zero_iff.mp (by omega))

/-- What was read once is read again. -/
theorem readable_readBack (text : List Char) : Readable (readBack text) := by
  induction text with
  | nil => rfl
  | cons c rest ih =>
      have hhead : (readBack rest).head? = some '\n' → rest.head? = some '\n' := by
        intro h
        obtain ⟨tail, htail⟩ := List.head?_eq_some_iff.mp h
        obtain ⟨more, hmore⟩ := readBack_front rest
        rw [← hmore, htail]
        rfl
      rw [readBack_eq]
      split
      next => rfl
      next hc =>
        have hc' : ¬ (c = '\r' ∧ (readBack rest).head? = some '\n' ∨ c = ' ' ∨ c = '@' ∨ c = ';') :=
          fun h => hc (h.imp_left fun h' => ⟨h'.1, hhead h'.2⟩)
        rw [Readable, readBack_eq, if_neg hc', ih]

/-- Two trunks one after the other, when what the first one dials can be read:
the second one dials what it would have dialled alone exactly when its own form
can be read and the two agree. -/
theorem readBack_second_iff {number : List Char} {a b : TrunkConfig}
    (ha : Readable (normalizeNumber a number)) :
    readBack (normalizeNumber b (normalizeNumber a number)) = normalizeNumber b number ↔
      Readable (normalizeNumber b number) ∧ Agree number a b := by
  constructor
  · intro h
    refine ⟨?_, ?_⟩
    · rw [← h]
      exact readable_readBack _
    by_cases hkept : normalizeNumber a number = number
    · exact .kept (leaves_iff.mpr hkept)
    have hform := rewrites_of_ne hkept
    by_cases hleaves : normalizeNumber b (normalizeNumber a number) = normalizeNumber a number
    · -- the second trunk leaves the form of the first, so it makes the same form
      rw [hleaves, ha] at h
      refine .same hform ?_ (leaves_iff.mpr hleaves)
      have hne : normalizeNumber b number ≠ number := fun heq => hkept (h.trans heq)
      rw [h]
      exact rewrites_of_ne hne
    · by_cases hown : normalizeNumber b number = number
      · rw [hown] at h
        exact .undone hform (leaves_iff.mpr hown) (rewrites_of_ne hleaves) h
      · -- it rewrites both, by the same rule, and then they were the same
        exfalso
        obtain ⟨strip, put, rest, hrule, hnum, hput⟩ := rewrites_of_ne hown
        obtain ⟨strip', put', rest', hrule', hnum', hput'⟩ := rewrites_of_ne hleaves
        rw [hrule] at hrule'
        cases hrule'
        rw [hput, hput'] at h
        have hfront : rest <+: rest' := by
          have := readBack_front (put ++ rest')
          rw [h] at this
          exact (List.prefix_append_right_inj put).mp this
        obtain ⟨tail, rfl⟩ := hfront
        by_cases htail : tail = []
        · apply hkept
          rw [hnum', hnum, htail, List.append_nil]
        · rw [← List.append_assoc] at h hnum'
          rw [hnum'] at ha
          exact not_readable_of_ends _ (ends_of_readBack_append htail h) ha
  · rintro ⟨hb, hkept | ⟨hform, hleaves, hback, hread⟩ | ⟨hform, hsecond, hleaves⟩⟩
    · rw [leaves_iff.mp hkept]
      exact hb
    · rw [normalizeNumber_of_rewrites hform, normalizeNumber_of_rewrites hback, hread,
        leaves_iff.mp hleaves]
    · rw [normalizeNumber_of_rewrites hform] at ha ⊢
      rw [leaves_iff.mp hleaves, normalizeNumber_of_rewrites hsecond]
      exact ha

/-- The number between the scheme and the at sign, as it is read back. -/
theorem user_of_written (number tail : List Char) :
    ((((firstLine (number ++ '@' :: tail)).takeWhile (· ≠ ' ')).takeWhile (· ≠ '@')).takeWhile
      (· ≠ ';')) = readBack number := by
  induction number with
  | nil =>
      rw [List.nil_append, firstLine_cons, if_neg (by simp)]
      rfl
  | cons c rest ih =>
      have hhead : (rest ++ '@' :: tail).head? = some '\n' ↔ rest.head? = some '\n' := by
        cases rest with
        | nil => simp
        | cons d ds => rfl
      rw [List.cons_append, firstLine_cons, readBack_eq]
      by_cases hcrlf : c = '\r' ∧ rest.head? = some '\n'
      · rw [if_pos ⟨hcrlf.1, hhead.mpr hcrlf.2⟩, if_pos (.inl hcrlf)]
        rfl
      · rw [if_neg fun h => hcrlf ⟨h.1, hhead.mp h.2⟩]
        by_cases hsep : c = ' ' ∨ c = '@' ∨ c = ';'
        · rw [if_pos (.inr hsep)]
          rcases hsep with rfl | rfl | rfl
          · rfl
          · rfl
          · rfl
        · rw [if_neg (by rintro (h | h); exacts [hcrlf h, hsep h])]
          simp only [not_or] at hsep
          rw [List.takeWhile_cons_of_pos (by simpa using hsep.1),
            List.takeWhile_cons_of_pos (by simpa using hsep.2.1),
            List.takeWhile_cons_of_pos (by simpa using hsep.2.2), ih]

theorem dialled_eq (raw : List Char) : dialled raw = dialledUser (firstLine raw) := by
  rw [dialled, splitCrlf_eq]
  rfl

theorem firstLine_append {front : List Char} (h : '\r' ∉ front) (rest : List Char) :
    firstLine (front ++ rest) = front ++ firstLine rest := by
  induction front with
  | nil => rfl
  | cons c front ih =>
      obtain ⟨hc, hfront⟩ := List.ne_and_not_mem_of_not_mem_cons h
      rw [List.cons_append, firstLine_cons, if_neg fun hh => hc hh.1.symm, ih hfront]
      rfl

/-- What is dialled in the text of an INVITE with this scheme and number. -/
theorem dialled_written (secure : Bool) (number tail : List Char) :
    dialled ("INVITE ".toList ++ (if secure then "sips:".toList else "sip:".toList) ++ number ++
      '@' :: tail) = some (readBack number) := by
  have hscheme : '\r' ∉ "INVITE ".toList ++ (if secure then "sips:".toList else "sip:".toList) := by
    cases secure with
    | true => decide
    | false => decide
  rw [dialled_eq, List.append_assoc, firstLine_append hscheme]
  cases secure with
  | true =>
      rw [← user_of_written number tail]
      rfl
  | false =>
      rw [← user_of_written number tail]
      rfl

theorem joinLines_front (line : List Char) (rest : List (List Char)) :
    ∃ tail, joinLines line rest = line ++ tail := by
  cases rest with
  | nil => exact ⟨[], (List.append_nil _).symm⟩
  | cons next rest => exact ⟨_, rfl⟩

/-- A failover writes its trunk's form of the number that it reads. -/
theorem retarget_dialled (U : Lowering) (fresh : List Char) (t : TrunkConfig) {raw user : List Char}
    (h : dialled raw = some user) :
    ∃ raw', retargetInviteForTrunk U fresh raw t = some raw' ∧
      dialled raw' = some (readBack (normalizeNumber t user)) := by
  rw [dialled_eq] at h
  unfold retargetInviteForTrunk
  rw [splitCrlf_eq]
  dsimp only
  rw [h, Option.map_some]
  refine ⟨_, rfl, ?_⟩
  obtain ⟨tail, htail⟩ := joinLines_front
    (requestLine t (normalizeNumber t user) (sipVersion (firstLine raw)))
    (refreshVia U fresh (splitCrlf raw).tail)
  rw [htail]
  have hwritten := dialled_written false (normalizeNumber t user)
    (t.host ++ ':' :: showNat t.port.toNat ++ ' ' :: sipVersion (firstLine raw) ++ tail)
  have hscheme : "INVITE sip:".toList = "INVITE ".toList ++ "sip:".toList := rfl
  rw [← hwritten, if_neg Bool.false_ne_true, ← hscheme]
  apply congrArg dialled
  unfold requestLine
  generalize "INVITE sip:".toList = scheme
  simp only [List.append_assoc, List.cons_append]

/-- The trunks' own forms of the number can be read, and each two that follow
one another agree about it. -/
def Consistent (number : List Char) (trunks : List TrunkConfig) : Prop :=
  (∀ t ∈ trunks, Readable (normalizeNumber t number)) ∧ trunks.IsChain (Agree number)

/-- The failovers behind an INVITE that dials the form of its own trunk. -/
theorem failovers_dialled_iff (U : Lowering) {number raw : List Char} {first : TrunkConfig}
    (hread : Readable (normalizeNumber first number))
    (hraw : dialled raw = some (normalizeNumber first number)) (path : List (List Char × TrunkConfig)) :
    (∀ sent ∈ failovers U raw path, dialled sent.2 = some (normalizeNumber sent.1 number)) ↔
      Consistent number (first :: path.map Prod.snd) := by
  induction path generalizing raw first with
  | nil => simp [failovers, Consistent, hread]
  | cons hop path ih =>
      obtain ⟨fresh, t⟩ := hop
      obtain ⟨raw', hretarget, hdialled⟩ := retarget_dialled U fresh t hraw
      simp only [failovers, hretarget, List.forall_mem_cons, hdialled, Option.some.injEq,
        readBack_second_iff hread, List.map_cons]
      constructor
      · rintro ⟨⟨ht, hagree⟩, hrest⟩
        rw [(readBack_second_iff hread).mpr ⟨ht, hagree⟩] at hdialled
        obtain ⟨hall, hchain⟩ := (ih ht hdialled).mp hrest
        exact ⟨List.forall_mem_cons.mpr ⟨hread, hall⟩, List.isChain_cons_cons.mpr ⟨hagree, hchain⟩⟩
      · rintro ⟨hall, hchain⟩
        obtain ⟨hagree, hchain⟩ := List.isChain_cons_cons.mp hchain
        have hall' := (List.forall_mem_cons.mp hall).2
        have ht := (List.forall_mem_cons.mp hall').1
        rw [(readBack_second_iff hread).mpr ⟨ht, hagree⟩] at hdialled
        exact ⟨⟨ht, hagree⟩, (ih ht hdialled).mpr ⟨hall', hchain⟩⟩

/-- Along every failover path each trunk is asked for its own form of the number
that was dialled exactly when the trunks are consistent about that number. -/
theorem number_independent_of_path_iff (U : Lowering) (number authority rest : List Char) (secure : Bool)
    (first : TrunkConfig) (path : List (List Char × TrunkConfig)) :
    let raw := firstInvite first secure number authority rest
    (∀ sent ∈ (first, raw) :: failovers U raw path,
      dialled sent.2 = some (normalizeNumber sent.1 number)) ↔
      Consistent number (first :: path.map Prod.snd) := by
  intro raw
  have hraw : dialled raw = some (readBack (normalizeNumber first number)) := by
    have h := dialled_written secure (normalizeNumber first number)
      (authority ++ " SIP/2.0\r\n".toList ++ rest)
    rw [← h]
    apply congrArg dialled
    unfold raw firstInvite
    generalize "INVITE ".toList = method
    generalize " SIP/2.0\r\n".toList = version
    simp only [List.append_assoc, List.cons_append]
  rw [List.forall_mem_cons]
  dsimp only
  rw [hraw, Option.some.injEq]
  constructor
  · rintro ⟨hread, hrest⟩
    rw [hread] at hraw
    exact (failovers_dialled_iff U hread hraw path).mp hrest
  · intro hcons
    have hread : Readable (normalizeNumber first number) := (List.forall_mem_cons.mp hcons.1).1
    rw [hread] at hraw
    exact ⟨hread, (failovers_dialled_iff U hread hraw path).mpr hcons⟩

def trunkOf (id : TrunkId) (format : NumberFormat) (cc : String) : TrunkConfig where
  id := id
  name := ['t']
  enabled := true
  host := ['h']
  port := 5060
  resolvedAddr := none
  numberFormat := format
  countryCode := some cc.toList
  nationalPrefix := none

/-- The INVITE for a French number, at a trunk that wants it in national form. -/
def frenchInvite : List Char :=
  firstInvite (trunkOf 1 .national "33") false "+33612345678".toList ['s'] []

/-- A Belgian trunk that wants the international form is asked for a Belgian
subscriber in the place of the French one. -/
theorem failover_dials_other_country :
    (failovers asciiOnly frenchInvite [(['b'], trunkOf 2 .e164 "32")]).map (fun sent => dialled sent.2) =
      [some "+32612345678".toList] ∧
    ¬ ∀ sent ∈ (trunkOf 1 .national "33", frenchInvite) ::
        failovers asciiOnly frenchInvite [(['b'], trunkOf 2 .e164 "32")],
      dialled sent.2 = some (normalizeNumber sent.1 "+33612345678".toList) := by
  have hfailover : (failovers asciiOnly frenchInvite [(['b'], trunkOf 2 .e164 "32")]).map
      (fun sent => (dialled sent.2, normalizeNumber sent.1 "+33612345678".toList)) =
      [(some "+32612345678".toList, "+33612345678".toList)] := by
    decide
  generalize failovers asciiOnly frenchInvite [(['b'], trunkOf 2 .e164 "32")] = sent at hfailover ⊢
  obtain ⟨s, rfl, hs⟩ := List.map_eq_singleton_iff.mp hfailover
  rw [Prod.mk.injEq] at hs
  constructor
  · rw [List.map_singleton, hs.1]
  · intro h
    have hwrong := h s (List.mem_cons_of_mem _ (List.mem_singleton_self s))
    rw [hs.1, hs.2] at hwrong
    exact absurd hwrong (by decide)

end NixiSbc.DialledNumber
