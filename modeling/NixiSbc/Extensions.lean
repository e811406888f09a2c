import NixiSbc.CredentialLines

namespace NixiSbc.Extensions

open RawSip TextScan TextFields TextLines TextWords SipRender SipEdit
open CredentialLines (toLower_ascii forall_ascii)

section Lists

variable {α : Type} (p q : α → Bool)

/-- Of what satisfies the test, keep only the first; `seen` says that it has been. -/
def keepFirst (seen : Bool) : List α → List α
  | [] => []
  | x :: xs =>
      if p x then if seen then keepFirst true xs else x :: keepFirst true xs
      else x :: keepFirst seen xs

/-- With another in the place of the first that satisfies the test, if one does. -/
def replaceFirst (y : α) : List α → Option (List α)
  | [] => none
  | x :: xs => if p x then some (y :: xs) else (replaceFirst y xs).map (x :: ·)

variable {p q} {xs : List α} {x y : α}

@[simp] theorem keepFirst_nil (seen : Bool) : keepFirst p seen [] = [] := rfl

theorem keepFirst_cons (seen : Bool) (x : α) (xs : List α) :
    keepFirst p seen (x :: xs) =
      if p x then if seen then keepFirst p true xs else x :: keepFirst p true xs
      else x :: keepFirst p seen xs := rfl

theorem replaceFirst_cons (x : α) (xs : List α) :
    replaceFirst p y (x :: xs) = if p x then some (y :: xs) else (replaceFirst p y xs).map (x :: ·) := rfl

theorem keepFirst_true (xs : List α) : keepFirst p true xs = xs.filter (!p ·) := by
  induction xs with
  | nil => rfl
  | cons x xs ih =>
      rw [keepFirst_cons]
      cases hx : p x with
      | true => simp [hx, ih]
      | false => simp [hx, ih]

theorem keepFirst_sublist (seen : Bool) (xs : List α) : (keepFirst p seen xs).Sublist xs := by
  induction xs generalizing seen with
  | nil => exact List.Sublist.refl _
  | cons x xs ih =>
      rw [keepFirst_cons]
      cases hx : p x with
      | true =>
          cases seen with
          | true => exact (ih true).cons x
          | false => exact (ih true).cons_cons x
      | false => exact (ih seen).cons_cons x

/-- What the test leaves alone is kept, and one more. -/
theorem filter_keepFirst (xs : List α) : (keepFirst p false xs).filter p = (xs.filter p).take 1 := by
  induction xs with
  | nil => rfl
  | cons x xs ih =>
      rw [keepFirst_cons]
      cases hx : p x with
      | true => simp [hx, keepFirst_true, List.filter_filter]
      | false => simp [hx, ih]

/-- Others are lost just when some that satisfy the test are among them, behind the first. -/
theorem others_keepFirst (xs : List α) :
    (keepFirst p false xs).filter q = xs.filter q ↔ ∀ x ∈ (xs.filter p).drop 1, q x = false := by
  induction xs with
  | nil => simp
  | cons x xs ih =>
      rw [keepFirst_cons]
      cases hp : p x with
      | true =>
          have hrest : (xs.filter (!p ·)).filter q = xs.filter q ↔ ∀ y ∈ xs.filter p, q y = false := by
            rw [List.filter_filter]
            constructor
            · intro h y hy
              obtain ⟨hmem, hpy⟩ := List.mem_filter.mp hy
              by_contra hqy
              have hin : y ∈ xs.filter fun z => q z && !p z := h ▸ List.mem_filter.mpr ⟨hmem, by simpa using hqy⟩
              simp [hpy] at hin
            · intro h
              refine List.filter_congr fun y hy => ?_
              cases hpy : p y with
              | true => simp [h y (List.mem_filter.mpr ⟨hy, hpy⟩)]
              | false => simp
          cases hq : q x with
          | true => simpa [hp, hq, keepFirst_true] using hrest
          | false => simpa [hp, hq, keepFirst_true] using hrest
      | false =>
          cases hq : q x with
          | true => simpa [hp, hq] using ih
          | false => simpa [hp, hq] using ih

theorem keepFirst_none (seen : Bool) (h : ∀ x ∈ xs, p x = false) : keepFirst p seen xs = xs := by
  induction xs with
  | nil => rfl
  | cons x xs ih =>
      rw [keepFirst_cons, if_neg (by simp [h x List.mem_cons_self]), ih fun y hy => h y (List.mem_cons_of_mem x hy)]

theorem keepFirst_append (xs : List α) (seen : Bool) (ys : List α) :
    keepFirst p seen (xs ++ ys) = keepFirst p seen xs ++ keepFirst p (seen || xs.any p) ys := by
  induction xs generalizing seen with
  | nil => simp
  | cons x xs ih =>
      rw [List.cons_append, keepFirst_cons, keepFirst_cons]
      cases hp : p x with
      | true =>
          cases seen with
          | true => simpa [hp] using ih true
          | false => simpa [hp] using ih true
      | false => simpa [hp] using ih seen

theorem replaceFirst_eq_none : replaceFirst p y xs = none ↔ ∀ x ∈ xs, p x = false := by
  induction xs with
  | nil => simp [replaceFirst]
  | cons x xs ih =>
      rw [replaceFirst_cons]
      cases hp : p x with
      | true => simp [hp]
      | false => simpa [hp] using ih

theorem replaceFirst_eq_some {zs : List α} (h : replaceFirst p y xs = some zs) :
    ∃ front old back, xs = front ++ old :: back ∧ zs = front ++ y :: back ∧ p old = true ∧ ∀ x ∈ front, p x = false := by
  induction xs generalizing zs with
  | nil => cases h
  | cons x xs ih =>
      rw [replaceFirst_cons] at h
      split at h
      next hp =>
        cases h
        exact ⟨[], x, xs, rfl, rfl, hp, fun z hz => (by cases hz)⟩
      next hp =>
        obtain ⟨zs', hzs', rfl⟩ := Option.map_eq_some_iff.mp h
        obtain ⟨front, old, back, rfl, rfl, hold, hfront⟩ := ih hzs'
        refine ⟨x :: front, old, back, rfl, rfl, hold, fun z hz => ?_⟩
        rcases List.mem_cons.mp hz with rfl | hz
        · simpa using hp
        · exact hfront z hz

theorem replaceFirst_append {front back : List α} (hfront : ∀ x ∈ front, p x = false) (hp : p x = true) :
    replaceFirst p y (front ++ x :: back) = some (front ++ y :: back) := by
  induction front with
  | nil => simp [replaceFirst_cons, hp]
  | cons z front ih =>
      rw [List.cons_append, replaceFirst_cons, if_neg (by simp [hfront z List.mem_cons_self]),
        ih fun w hw => hfront w (List.mem_cons_of_mem z hw)]
      rfl

end Lists

def supportedExtensions : List (List Char) := ["timer".toList]

/-- `eq_ignore_ascii_case` -/
def sameAscii (s t : List Char) : Bool := toAsciiLowercase s = toAsciiLowercase t

def isSupported (t : List Char) : Bool := supportedExtensions.any fun s => sameAscii s t

/-- The option tags of the values of a header. -/
def tags (values : List (List Char)) : List (List Char) := values.flatMap fun v => (v.splitOn ',').map trim

def keep (kept : List (List Char)) (t : List Char) : List (List Char) :=
  if isSupported t ∧ !kept.any (sameAscii · t) then kept ++ [t] else kept

def keptTags (values : List (List Char)) : List (List Char) := (tags values).foldl keep []

def supported : List Char := "supported".toList

def compact : List Char := "k".toList

/-- A line without a colon is its own name here. -/
def namesSupported (h : List Char) : Bool :=
  let name := toAsciiLowercase (trim (h.takeWhile (· ≠ ':')))
  name = supported ∨ name = compact

def joinTags (kept : List (List Char)) : List Char := (", ".toList).intercalate kept

def headerText (name value : List Char) : List Char := name ++ ": ".toList ++ value

section Strip

variable (U : Lowering)

/-- The first of the lines, or a new one behind all. -/
def setHeader (m : RawSipMessage) (name value : List Char) : RawSipMessage :=
  match replaceFirst (hasName U name) (headerText name value) m.headers with
  | some headers => { m with headers := headers }
  | none => appendHeader m (headerText name value)

def stripUnsupportedExtensions (raw : List Char) : List Char :=
  match parse raw with
  | .error _ => raw
  | .ok m =>
      let kept := keptTags (headerValues U m supported)
      if headerValues U m supported = [] then raw
      else if kept = [] then render (removeHeader U (removeHeader U m supported) compact)
      else
        let m := removeHeader U { m with headers := keepFirst namesSupported false m.headers } compact
        if headerValues U m supported = [] then
          render (appendHeader m (headerText "Supported".toList (joinTags kept)))
        else render (setHeader U m "Supported".toList (joinTags kept))

/-- The message that a text is read as. -/
def message (raw : List Char) : RawSipMessage where
  startLine := trim ((splitBody raw).1.takeWhile fun c => c ≠ '\r' ∧ c ≠ '\n')
  headers := collectHeaders none ((lines (splitBody raw).1).drop 1)
  body := (splitBody raw).2

theorem parse_message (raw : List Char) : parse raw = .ok (message raw) := rfl

/-- The option tags of a text, in small letters. -/
def optionTags (raw : List Char) : List (List Char) :=
  (tags (headerValues U (message raw) supported)).map toAsciiLowercase

def supportedLines (raw : List Char) : List (List Char) := (message raw).headers.filter (hasName U supported)

def otherLines (raw : List Char) : List (List Char) := (message raw).headers.filter (!hasName U supported ·)

/-- What the output keeps of a request, and what not. -/
structure Exact (raw : List Char) : Prop where
  tags : ∀ tag, tag ∈ optionTags U (stripUnsupportedExtensions U raw) ↔ tag ∈ optionTags U raw ∧ isSupported tag
  single : (supportedLines U (stripUnsupportedExtensions U raw)).length ≤ 1
  absent : (∀ tag ∈ optionTags U raw, isSupported tag = false) → supportedLines U (stripUnsupportedExtensions U raw) = []
  others : otherLines U (stripUnsupportedExtensions U raw) = otherLines U raw
  body : (message (stripUnsupportedExtensions U raw)).body = (message raw).body
  again : stripUnsupportedExtensions U (stripUnsupportedExtensions U raw) = stripUnsupportedExtensions U raw

/-- Where a tag is kept, no line without a colon that reads as the name stands
behind another of that name. -/
def Colons (raw : List Char) : Prop :=
  keptTags (headerValues U (message raw) supported) = [] ∨
    ∀ h ∈ ((message raw).headers.filter namesSupported).drop 1, ':' ∈ h

/-- Outside ASCII only the Kelvin sign is lower-cased into ASCII. -/
def LowersOutside : Prop := ∀ before c after, 128 ≤ c.toNat → U before c after = compact ∨
  ∃ d ∈ U before c after, 128 ≤ d.toNat

end Strip

section Tags

variable {t u : List Char} {ts kept acc : List (List Char)}

/-- A tag stands between commas as it is. -/
structure IsTag (t : List Char) : Prop where
  ne_nil : t ≠ []
  plain : ∀ c ∈ t, c ≠ ',' ∧ isWhiteSpace c = false

theorem toLower_eq_self {c : Char} (h : isWhiteSpace c = true ∨ c = ',') : c.toLower = c := by
  unfold Char.toLower
  split
  next hupper =>
    have hge : 65 ≤ c.toNat := UInt32.le_iff_toNat_le.mp hupper.1
    have hle : c.toNat ≤ 90 := UInt32.le_iff_toNat_le.mp hupper.2
    rcases h with hblank | rfl
    · simp only [isWhiteSpace, decide_eq_true_eq] at hblank
      omega
    · exact absurd hge (by decide)
  next => rfl

theorem toLower_toLower (c : Char) : c.toLower.toLower = c.toLower := by
  by_cases hascii : c.toNat < 128
  · exact forall_ascii (p := fun c => c.toLower.toLower = c.toLower) (by decide +kernel) hascii
  · have hsame : c.toLower = c := by
      unfold Char.toLower
      split
      next hupper =>
        have hle : c.toNat ≤ 90 := UInt32.le_iff_toNat_le.mp hupper.2
        omega
      next => rfl
    rw [hsame, hsame]

theorem isTag_of_isSupported (h : isSupported t = true) : IsTag t := by
  obtain ⟨s, hs, hsame⟩ := List.any_eq_true.mp h
  have hall : (supportedExtensions.all fun s => !s.isEmpty && s.all fun c =>
      decide (c.toLower ≠ ',') && !isWhiteSpace c.toLower) = true := by
    decide
  have hplain : ∀ s ∈ supportedExtensions, s ≠ [] ∧ ∀ c ∈ s, c.toLower ≠ ',' ∧ isWhiteSpace c.toLower = false := by
    simpa [List.all_eq_true] using hall
  have hlower : toAsciiLowercase s = toAsciiLowercase t := of_decide_eq_true hsame
  refine ⟨?_, fun c hc => ?_⟩
  · rintro rfl
    exact (hplain s hs).1 (List.map_eq_nil_iff.mp hlower)
  · have hmem : c.toLower ∈ toAsciiLowercase s := hlower ▸ List.mem_map_of_mem hc
    obtain ⟨d, hd, hdc⟩ := List.mem_map.mp hmem
    have hd' := (hplain s hs).2 d hd
    rw [hdc] at hd'
    refine ⟨fun he => ?_, ?_⟩
    · rw [toLower_eq_self (.inr he)] at hd'
      exact hd'.1 he
    · cases hblank : isWhiteSpace c with
      | false => rfl
      | true =>
          rw [toLower_eq_self (.inl hblank), hblank] at hd'
          exact hd'.2

theorem IsTag.trim_eq (h : IsTag t) : trim t = t :=
  trim_eq_self (fun c hc => (h.plain c (List.mem_of_mem_head? hc)).2)
    fun c hc => (h.plain c (List.mem_of_mem_getLast? hc)).2

theorem trim_cons_space (text : List Char) : trim (' ' :: text) = trim text := by
  rw [trim, trimStart, List.dropWhile_cons_of_pos (by decide)]
  rfl

theorem splitOn_cons_space (text : List Char) :
    ((' ' :: text).splitOn ',').map trim = (text.splitOn ',').map trim := by
  have hsplit : (' ' :: text).splitOn ',' = (text.splitOn ',').modifyHead (' ' :: ·) := by
    rw [List.splitOn, List.splitOnP_cons_eq_if_modifyHead]
    rfl
  rw [hsplit]
  cases text.splitOn ',' with
  | nil => rfl
  | cons piece pieces => rw [List.modifyHead_cons, List.map_cons, List.map_cons, trim_cons_space]

/-- What is joined with commas is read apart again. -/
theorem splitOn_joinTags (hne : kept ≠ []) (h : ∀ t ∈ kept, IsTag t) : ((joinTags kept).splitOn ',').map trim = kept := by
  induction kept with
  | nil => exact absurd rfl hne
  | cons t kept ih =>
      have ht := h t List.mem_cons_self
      have hcomma : ∀ c ∈ t, (c == ',') = false := fun c hc => by simpa using (ht.plain c hc).1
      cases kept with
      | nil =>
          have hjoin : joinTags [t] = t := by simp [joinTags]
          rw [hjoin, List.splitOn, List.splitOnP_eq_singleton hcomma, List.map_singleton, ht.trim_eq]
      | cons u kept =>
          have hjoin : joinTags (t :: u :: kept) = t ++ ',' :: ' ' :: joinTags (u :: kept) := by simp [joinTags]
          have hrest := ih (List.cons_ne_nil _ _) fun v hv => h v (List.mem_cons_of_mem _ hv)
          rw [hjoin, List.splitOn, List.splitOnP_append_cons_of_forall_mem hcomma ',' (by decide), List.map_cons,
            ht.trim_eq, ← List.splitOn, splitOn_cons_space, hrest]

theorem joinTags_head (hne : kept ≠ []) (h : ∀ t ∈ kept, IsTag t) :
    ∀ c, (joinTags kept).head? = some c → isWhiteSpace c = false := by
  intro c hc
  cases kept with
  | nil => exact absurd rfl hne
  | cons t kept =>
      have ht := h t List.mem_cons_self
      have hhead : (joinTags (t :: kept)).head? = t.head? := by
        cases kept with
        | nil => simp [joinTags]
        | cons u kept => simp [joinTags, List.head?_append_of_ne_nil t ht.ne_nil]
      rw [hhead] at hc
      exact (ht.plain c (List.mem_of_mem_head? hc)).2

theorem joinTags_last (hne : kept ≠ []) (h : ∀ t ∈ kept, IsTag t) :
    ∀ c, (joinTags kept).getLast? = some c → isWhiteSpace c = false := by
  intro c hc
  induction kept with
  | nil => exact absurd rfl hne
  | cons t kept ih =>
      have ht := h t List.mem_cons_self
      cases kept with
      | nil =>
          have hjoin : joinTags [t] = t := by simp [joinTags]
          rw [hjoin] at hc
          exact (ht.plain c (List.mem_of_mem_getLast? hc)).2
      | cons u kept =>
          have hrest : ∀ v ∈ u :: kept, IsTag v := fun v hv => h v (List.mem_cons_of_mem _ hv)
          have hjoin : joinTags (t :: u :: kept) = (t ++ [',', ' ']) ++ joinTags (u :: kept) := by simp [joinTags]
          have hfull : joinTags (u :: kept) ≠ [] := by
            intro hnil
            have hsplit := splitOn_joinTags (List.cons_ne_nil u kept) hrest
            rw [hnil] at hsplit
            have hu : [] = u := Option.some.inj (congrArg List.head? hsplit)
            exact (hrest u List.mem_cons_self).ne_nil hu.symm
          rw [hjoin, List.getLast?_append_of_ne_nil _ hfull] at hc
          exact ih (List.cons_ne_nil u kept) hrest hc

theorem trim_joinTags (hne : kept ≠ []) (h : ∀ t ∈ kept, IsTag t) : trim (joinTags kept) = joinTags kept :=
  trim_eq_self (joinTags_head hne h) (joinTags_last hne h)

theorem not_mem_joinTags (h : ∀ t ∈ kept, IsTag t) : '\n' ∉ joinTags kept := by
  intro hmem
  rcases mem_intercalate hmem with hmem | ⟨t, ht, hmem⟩
  · exact absurd hmem (by decide)
  · cases ((h t ht).plain _ hmem).2

/-- Supported tags, none of them twice in any case. -/
def Distinct (kept : List (List Char)) : Prop :=
  (∀ t ∈ kept, isSupported t = true) ∧ kept.Pairwise fun s t => sameAscii s t = false

theorem distinct_keep (h : Distinct kept) (t : List Char) : Distinct (keep kept t) := by
  rw [keep]
  split
  next hnew =>
    refine ⟨fun s hs => ?_, List.pairwise_append.mpr ⟨h.2, List.pairwise_singleton _ _, fun s hs u hu => ?_⟩⟩
    · rcases List.mem_append.mp hs with hs | hs
      · exact h.1 s hs
      · rw [List.mem_singleton.mp hs]
        exact hnew.1
    · rw [List.mem_singleton.mp hu]
      have hnone := hnew.2
      rw [Bool.not_eq_true', List.any_eq_false] at hnone
      exact Bool.eq_false_of_not_eq_true (hnone s hs)
  next => exact h

theorem distinct_keptTags (values : List (List Char)) : Distinct (keptTags values) := by
  have hfold (ts : List (List Char)) : ∀ {acc}, Distinct acc → Distinct (ts.foldl keep acc) := by
    induction ts with
    | nil => exact fun h => h
    | cons t ts ih => exact fun h => ih (distinct_keep h t)
  exact hfold _ ⟨fun t ht => (by cases ht), List.Pairwise.nil⟩

theorem Distinct.isTag (h : Distinct kept) : ∀ t ∈ kept, IsTag t := fun t ht => isTag_of_isSupported (h.1 t ht)

theorem foldl_keep (h : Distinct (acc ++ ts)) : ts.foldl keep acc = acc ++ ts := by
  induction ts generalizing acc with
  | nil => simp
  | cons t ts ih =>
      have hnew : keep acc t = acc ++ [t] := by
        refine if_pos ⟨h.1 t (List.mem_append_right _ List.mem_cons_self), ?_⟩
        rw [Bool.not_eq_true', List.any_eq_false]
        intro s hs
        have hapart := (List.pairwise_append.mp h.2).2.2 s hs t List.mem_cons_self
        simp [hapart]
      rw [List.append_cons] at h ⊢
      rw [List.foldl_cons, hnew, ih h]

theorem keptTags_joined (h : Distinct kept) (hne : kept ≠ []) : keptTags [joinTags kept] = kept := by
  have htags : tags [joinTags kept] = kept := by rw [tags, List.flatMap_singleton, splitOn_joinTags hne h.isTag]
  have hall : Distinct ([] ++ kept) := h
  rw [keptTags, htags, foldl_keep hall, List.nil_append]

theorem isSupported_lower (t : List Char) : isSupported (toAsciiLowercase t) = isSupported t := by
  have hlower : toAsciiLowercase (toAsciiLowercase t) = toAsciiLowercase t := by
    simp only [toAsciiLowercase, List.map_map]
    exact List.map_congr_left fun c _ => toLower_toLower c
  simp only [isSupported, sameAscii, hlower]

/-- In any case, the tags that are kept are the supported ones. -/
theorem mem_foldl_keep (tag : List Char) : (∃ t ∈ ts.foldl keep acc, toAsciiLowercase t = tag) ↔
    (∃ t ∈ acc, toAsciiLowercase t = tag) ∨ ∃ t ∈ ts, toAsciiLowercase t = tag ∧ isSupported t = true := by
  induction ts generalizing acc with
  | nil => simp
  | cons t ts ih =>
      have hone : (∃ s ∈ keep acc t, toAsciiLowercase s = tag) ↔
          (∃ s ∈ acc, toAsciiLowercase s = tag) ∨ (toAsciiLowercase t = tag ∧ isSupported t = true) := by
        rw [keep]
        split
        next hnew => simp [hnew.1, or_and_right, exists_or]
        next hold =>
          refine ⟨.inl, fun h => h.elim id fun ⟨ht, hsup⟩ => ?_⟩
          have hany : acc.any (sameAscii · t) = true := by
            by_contra hnone
            exact hold ⟨hsup, by simpa using hnone⟩
          obtain ⟨s, hs, hsame⟩ := List.any_eq_true.mp hany
          exact ⟨s, hs, (of_decide_eq_true hsame).trans ht⟩
      rw [List.foldl_cons, ih, hone, List.exists_mem_cons_iff, or_assoc]

theorem mem_keptTags (values : List (List Char)) (tag : List Char) :
    tag ∈ (keptTags values).map toAsciiLowercase ↔
      tag ∈ (tags values).map toAsciiLowercase ∧ isSupported tag = true := by
  rw [List.mem_map, keptTags, mem_foldl_keep, List.mem_map]
  constructor
  · rintro (⟨t, ht, -⟩ | ⟨t, ht, rfl, hsup⟩)
    · cases ht
    · exact ⟨⟨t, ht, rfl⟩, (isSupported_lower t).trans hsup⟩
  · rintro ⟨⟨t, ht, rfl⟩, hsup⟩
    exact .inr ⟨t, ht, rfl, (isSupported_lower t).symm.trans hsup⟩

end Tags

section Names

variable {U : Lowering} {h text : List Char}

def lowered (U : Lowering) (h : List Char) : List Char := toLowercase U (trim (h.takeWhile (· ≠ ':')))

theorem shortForm_supported (name : List Char) : shortForm name = supported ↔ name = supported ∨ name = compact := by
  constructor
  · intro hname
    by_cases hk : name = compact
    · exact .inr hk
    · refine .inl ?_
      rw [shortForm] at hname
      split_ifs at hname with hv hf ht hm hi he hl hc hs hk'
      iterate 9 exact absurd hname (by decide)
      · exact absurd hk' hk
      · exact hname
  · rintro (rfl | rfl)
    · decide
    · decide

theorem hasName_supported : hasName U supported h = true ↔ ':' ∈ h ∧ (lowered U h = supported ∨ lowered U h = compact) := by
  have hname : toLowercase U supported = supported := rfl
  rw [hasName, decide_eq_true_iff, hname, shortForm_supported]
  exact and_congr_right fun _ => ⟨fun hor => hor.elim .inl id, .inr⟩

theorem hasName_compact : hasName U compact h = true ↔ ':' ∈ h ∧ lowered U h = compact := by
  have hname : toLowercase U compact = compact := rfl
  rw [hasName, decide_eq_true_iff, hname]
  refine and_congr_right fun _ => ⟨fun hor => hor.elim id fun hshort => ?_, .inl⟩
  rcases shortForm_long (lowered U h) with hself | hlong
  · exact hself.symm.trans hshort
  · rw [lowered, hshort] at hlong
    exact absurd hlong (by decide)

/-- A name in its long form and in small letters. -/
structure FullName (name : List Char) : Prop where
  ascii : name.all isAscii = true
  lower : toAsciiLowercase name = name
  full : shortForm name = name

/-- A header has a name when that is the long form of its own. -/
theorem hasName_full {name : List Char} (hname : FullName name) :
    hasName U name h = true ↔ ':' ∈ h ∧ shortForm (lowered U h) = name := by
  have hlower : toLowercase U name = name :=
    (lowerFrom_ascii U [] (List.all_eq_true.mp hname.ascii)).trans hname.lower
  rw [hasName, decide_eq_true_iff, hlower]
  refine and_congr_right fun _ => ⟨fun hor => hor.elim (fun hsame => ?_) id, .inr⟩
  rw [lowered, hsame]
  exact hname.full

theorem hasName_apart {name other : List Char} (hname : FullName name) (hother : FullName other) (hne : name ≠ other)
    (hh : hasName U name h = true) : hasName U other h = false := by
  refine Bool.eq_false_of_not_eq_true fun hsame => ?_
  exact hne (((hasName_full hname).mp hh).2.symm.trans ((hasName_full hother).mp hsame).2)

/-- What a character contributes to a lowered text. -/
theorem mem_lowerFrom (before : List Char) {c : Char} (hc : c ∈ text) (hascii : 128 ≤ c.toNat) :
    ∃ front back, ∀ d ∈ U front c back, d ∈ lowerFrom U before text := by
  induction text generalizing before with
  | nil => cases hc
  | cons a rest ih =>
      rw [lowerFrom]
      rcases List.mem_cons.mp hc with rfl | hc
      · rw [if_neg (by omega)]
        exact ⟨before, rest, fun d hd => List.mem_append_left _ hd⟩
      · obtain ⟨front, back, hall⟩ := ih (before ++ [a]) hc
        exact ⟨front, back, fun d hd => List.mem_append_right _ (hall d hd)⟩

/-- Only letters of ASCII are lower-cased to the long name. -/
theorem ascii_of_supported (hU : LowersOutside U) (hlower : toLowercase U text = supported) :
    toAsciiLowercase text = supported := by
  have hascii : ∀ c ∈ text, isAscii c = true := by
    intro c hc
    by_contra hout
    have hbig : 128 ≤ c.toNat := by simpa [isAscii] using hout
    obtain ⟨front, back, hall⟩ := mem_lowerFrom (U := U) [] hc hbig
    have hfull : lowerFrom U [] text = supported := hlower
    rw [hfull] at hall
    rcases hU front c back hbig with hkelvin | ⟨d, hd, hdbig⟩
    · exact absurd (hall 'k' (by rw [hkelvin]; decide)) (by decide)
    · have hsmall : supported.all isAscii = true := by decide
      have hdsmall : d.toNat < 128 := of_decide_eq_true (List.all_eq_true.mp hsmall d (hall d hd))
      omega
  rw [← lowerFrom_ascii U [] hascii]
  exact hlower

theorem lowered_of_names (hnames : namesSupported h = true) : lowered U h = supported ∨ lowered U h = compact := by
  have hascii : ∀ c ∈ trim (h.takeWhile (· ≠ ':')), isAscii c = true := by
    intro c hc
    have hmem : c.toLower ∈ toAsciiLowercase (trim (h.takeWhile (· ≠ ':'))) := List.mem_map_of_mem hc
    have hsmall : (supported ++ compact).all isAscii = true := by decide
    refine decide_eq_true (toLower_ascii (of_decide_eq_true (List.all_eq_true.mp hsmall _ ?_)))
    rcases of_decide_eq_true hnames with hname | hname
    · exact List.mem_append_left _ (hname ▸ hmem)
    · exact List.mem_append_right _ (hname ▸ hmem)
  rw [lowered, toLowercase, lowerFrom_ascii U [] hascii]
  exact of_decide_eq_true hnames

theorem hasName_of_names (hnames : namesSupported h = true) : hasName U supported h = decide (':' ∈ h) := by
  cases hcolon : decide (':' ∈ h) with
  | true => exact hasName_supported.mpr ⟨of_decide_eq_true hcolon, lowered_of_names hnames⟩
  | false =>
      refine Bool.eq_false_of_not_eq_true fun hname => ?_
      exact of_decide_eq_false hcolon (hasName_supported.mp hname).1

theorem supported_of_compact (hname : hasName U compact h = true) : hasName U supported h = true := by
  obtain ⟨hcolon, hlower⟩ := hasName_compact.mp hname
  exact hasName_supported.mpr ⟨hcolon, .inr hlower⟩

/-- A header of the long name reads so without the tables too. -/
theorem names_of_long (hU : LowersOutside U) (hname : hasName U supported h = true)
    (hlong : hasName U compact h = false) : namesSupported h = true := by
  obtain ⟨hcolon, hlower | hlower⟩ := hasName_supported.mp hname
  · exact decide_eq_true (.inl (ascii_of_supported hU hlower))
  · rw [hasName_compact.mpr ⟨hcolon, hlower⟩] at hlong
    cases hlong

end Names

section Lines

variable {U : Lowering} {kept hs : List (List Char)}

def newLine (kept : List (List Char)) : List Char := headerText "Supported".toList (joinTags kept)

theorem newLine_eq (kept : List (List Char)) : newLine kept = "Supported".toList ++ ':' :: ' ' :: joinTags kept := by
  rw [newLine, headerText, List.append_assoc]
  rfl

theorem newLine_supported (U : Lowering) (kept : List (List Char)) : hasName U supported (newLine kept) = true := by
  rw [newLine_eq, hasName_append U _ (by decide) (by decide) (by decide)]
  decide

theorem newLine_compact (U : Lowering) (kept : List (List Char)) : hasName U compact (newLine kept) = false := by
  rw [newLine_eq, hasName_append U _ (by decide) (by decide) (by decide)]
  decide

theorem newLine_names (kept : List (List Char)) : namesSupported (newLine kept) = true := by
  have hfront : (newLine kept).takeWhile (· ≠ ':') = "Supported".toList := by
    rw [newLine_eq, List.takeWhile_append_of_pos (List.all_eq_true.mp (by decide))]
    simp
  rw [namesSupported, hfront]
  decide

theorem newLine_headerLine (h : ∀ t ∈ kept, IsTag t) : HeaderLine (newLine kept) := by
  rw [newLine, headerText, List.append_assoc]
  refine headerLine_append _ (by decide) (by decide) (by decide) ?_
  exact List.not_mem_append (by decide) (not_mem_joinTags h)

theorem newLine_value (hne : kept ≠ []) (h : ∀ t ∈ kept, IsTag t) : headerValue (newLine kept) = joinTags kept := by
  rw [newLine_eq, headerValue_append (by decide), trim_cons_space, trim_joinTags hne h]

/-- The lines from which the first is replaced, if one of them has the name. -/
def folded (U : Lowering) (hs : List (List Char)) : List (List Char) :=
  (keepFirst namesSupported false hs).filter (!hasName U compact ·)

def rewritten (U : Lowering) (kept hs : List (List Char)) : List (List Char) :=
  (replaceFirst (hasName U supported) (newLine kept) (folded U hs)).getD (folded U hs ++ [newLine kept])

theorem folded_names (U : Lowering) (hs : List (List Char)) : ((folded U hs).filter namesSupported).length ≤ 1 := by
  have hsub : ((folded U hs).filter namesSupported).Sublist ((keepFirst namesSupported false hs).filter namesSupported) :=
    List.filter_sublist.filter _
  have hlen := hsub.length_le
  rw [filter_keepFirst] at hlen
  exact hlen.trans (List.length_take_le 1 _)

theorem folded_long (hU : LowersOutside U) {h : List Char} (hh : h ∈ folded U hs) (hname : hasName U supported h = true) :
    namesSupported h = true :=
  names_of_long hU hname (by simpa using (List.mem_filter.mp hh).2)

/-- The new line stands for the one line of the name that is left, or behind all. -/
theorem rewritten_cases (hU : LowersOutside U) (kept hs : List (List Char)) :
    (∃ front old back, folded U hs = front ++ old :: back ∧ rewritten U kept hs = front ++ newLine kept :: back ∧
      hasName U supported old = true ∧ ∀ h ∈ front ++ back, namesSupported h = false ∧ hasName U supported h = false) ∨
    ((∀ h ∈ folded U hs, hasName U supported h = false) ∧ rewritten U kept hs = folded U hs ++ [newLine kept]) := by
  unfold rewritten
  cases hreplace : replaceFirst (hasName U supported) (newLine kept) (folded U hs) with
  | none => exact .inr ⟨replaceFirst_eq_none.mp hreplace, rfl⟩
  | some zs =>
      obtain ⟨front, old, back, hfolded, rfl, hold, hfront⟩ := replaceFirst_eq_some hreplace
      refine .inl ⟨front, old, back, hfolded, rfl, hold, fun h hh => ?_⟩
      have hmem : h ∈ folded U hs := by
        rw [hfolded]
        rcases List.mem_append.mp hh with hh | hh
        · exact List.mem_append_left _ hh
        · exact List.mem_append_right _ (List.mem_cons_of_mem _ hh)
      have hnames : namesSupported h = false := by
        have honce := folded_names U hs
        have holdnames := folded_long hU (h := old) (by rw [hfolded]; exact List.mem_append_right _ List.mem_cons_self) hold
        rw [hfolded, List.filter_append, List.filter_cons_of_pos holdnames, List.length_append, List.length_cons] at honce
        refine Bool.eq_false_of_not_eq_true fun hnames => ?_
        rcases List.mem_append.mp hh with hh | hh
        · have hpos := List.length_pos_of_mem (List.mem_filter.mpr ⟨hh, hnames⟩)
          omega
        · have hpos := List.length_pos_of_mem (List.mem_filter.mpr ⟨hh, hnames⟩)
          omega
      refine ⟨hnames, Bool.eq_false_of_not_eq_true fun hname => ?_⟩
      rw [folded_long hU hmem hname] at hnames
      cases hnames

theorem rewritten_supported (hU : LowersOutside U) (kept hs : List (List Char)) :
    (rewritten U kept hs).filter (hasName U supported) = [newLine kept] := by
  have hnew := newLine_supported U kept
  rcases rewritten_cases hU kept hs with ⟨front, old, back, -, hout, -, hrest⟩ | ⟨hnone, hout⟩
  · have hfront : front.filter (hasName U supported) = [] :=
      List.filter_eq_nil_iff.mpr fun h hh => by simp [(hrest h (List.mem_append_left _ hh)).2]
    have hback : back.filter (hasName U supported) = [] :=
      List.filter_eq_nil_iff.mpr fun h hh => by simp [(hrest h (List.mem_append_right _ hh)).2]
    rw [hout, List.filter_append, List.filter_cons_of_pos hnew, hfront, hback]
    rfl
  · have hfolded : (folded U hs).filter (hasName U supported) = [] :=
      List.filter_eq_nil_iff.mpr fun h hh => by simp [hnone h hh]
    rw [hout, List.filter_append, hfolded, List.filter_cons_of_pos hnew]
    rfl

theorem folded_others (U : Lowering) (hs : List (List Char)) :
    (folded U hs).filter (!hasName U supported ·) =
      (keepFirst namesSupported false hs).filter (!hasName U supported ·) := by
  rw [folded, List.filter_filter]
  refine List.filter_congr fun h _ => ?_
  cases hcompact : hasName U compact h with
  | true => simp [supported_of_compact hcompact]
  | false => simp

theorem rewritten_others (hU : LowersOutside U) (kept hs : List (List Char)) :
    (rewritten U kept hs).filter (!hasName U supported ·) =
      (keepFirst namesSupported false hs).filter (!hasName U supported ·) := by
  have hnew : (!hasName U supported (newLine kept)) = false := by rw [newLine_supported]; rfl
  rw [← folded_others]
  rcases rewritten_cases hU kept hs with ⟨front, old, back, hfolded, hout, hold, -⟩ | ⟨-, hout⟩
  · have hgone : (!hasName U supported old) = false := by rw [hold]; rfl
    rw [hout, hfolded, List.filter_append, List.filter_append, List.filter_cons_of_neg (by simp [hnew]),
      List.filter_cons_of_neg (by simp [hgone])]
  · rw [hout, List.filter_append, List.filter_cons_of_neg (by simp [hnew]), List.filter_nil, List.append_nil]

/-- Of lines among which at most one has the name, none goes. -/
theorem keepFirst_single {p : List Char → Bool} (h : (hs.filter p).length ≤ 1) : keepFirst p false hs = hs := by
  refine (keepFirst_sublist false hs).eq_of_length ?_
  have hall : (keepFirst p false hs).filter (fun x => !p x) = hs.filter (fun x => !p x) :=
    (others_keepFirst hs).mpr fun x hx => by
      have hdrop : (hs.filter p).drop 1 = [] := List.drop_eq_nil_of_le h
      rw [hdrop] at hx
      cases hx
  have hsame : (keepFirst p false hs).filter p = hs.filter p := by
    rw [filter_keepFirst, List.take_of_length_le h]
  rw [List.length_eq_length_filter_add p, hsame, hall, ← List.length_eq_length_filter_add]

theorem folded_compact (U : Lowering) (hs : List (List Char)) : ∀ h ∈ folded U hs, hasName U compact h = false :=
  fun h hh => by simpa using (List.mem_filter.mp hh).2

theorem filter_compact {ls : List (List Char)} (h : ∀ l ∈ ls, hasName U compact l = false) :
    ls.filter (!hasName U compact ·) = ls :=
  List.filter_eq_self.mpr fun l hl => by simp [h l hl]

/-- What was rewritten once is left as it is. -/
theorem rewritten_again (hU : LowersOutside U) (kept hs : List (List Char)) :
    rewritten U kept (rewritten U kept hs) = rewritten U kept hs := by
  have hnew := newLine_supported U kept
  have hcompact := folded_compact U hs
  rcases rewritten_cases hU kept hs with ⟨front, old, back, hfolded, hout, -, hrest⟩ | ⟨hnone, hout⟩
  · rw [hfolded] at hcompact
    have hfront : front.filter namesSupported = [] :=
      List.filter_eq_nil_iff.mpr fun h hh => by simp [(hrest h (List.mem_append_left _ hh)).1]
    have hback : back.filter namesSupported = [] :=
      List.filter_eq_nil_iff.mpr fun h hh => by simp [(hrest h (List.mem_append_right _ hh)).1]
    have hsingle : ((front ++ newLine kept :: back).filter namesSupported).length ≤ 1 := by
      rw [List.filter_append, List.filter_cons_of_pos (newLine_names kept), hfront, hback]
      exact Nat.le_refl 1
    have hkeep : folded U (front ++ newLine kept :: back) = front ++ newLine kept :: back := by
      rw [folded, keepFirst_single hsingle]
      refine filter_compact fun l hl => ?_
      rcases List.mem_append.mp hl with hl | hl
      · exact hcompact l (List.mem_append_left _ hl)
      · rcases List.mem_cons.mp hl with rfl | hl
        · exact newLine_compact U kept
        · exact hcompact l (List.mem_append_right _ (List.mem_cons_of_mem _ hl))
    rw [hout, rewritten, hkeep, replaceFirst_append (fun h hh => (hrest h (List.mem_append_left _ hh)).2) hnew]
    rfl
  · have hkeep : folded U (folded U hs ++ [newLine kept]) = folded U hs ∨
        folded U (folded U hs ++ [newLine kept]) = folded U hs ++ [newLine kept] := by
      rw [folded, keepFirst_append, keepFirst_single (folded_names U hs), Bool.false_or, List.filter_append,
        filter_compact hcompact]
      cases (folded U hs).any namesSupported with
      | true =>
          refine .inl ?_
          rw [keepFirst_cons, if_pos (newLine_names kept), if_pos rfl, keepFirst_nil, List.filter_nil, List.append_nil]
      | false =>
          refine .inr ?_
          rw [keepFirst_cons, if_pos (newLine_names kept), if_neg Bool.false_ne_true, keepFirst_nil,
            List.filter_cons_of_pos (by rw [newLine_compact]; rfl), List.filter_nil]
    rw [hout, rewritten]
    rcases hkeep with hkeep | hkeep
    · rw [hkeep, replaceFirst_eq_none.mpr hnone]
      rfl
    · rw [hkeep, replaceFirst_append hnone hnew]
      rfl

theorem mem_rewritten {h : List Char} (hU : LowersOutside U) (hh : h ∈ rewritten U kept hs) : h = newLine kept ∨ h ∈ hs := by
  have hsub : ∀ l ∈ folded U hs, l ∈ hs := fun l hl => (keepFirst_sublist false hs).subset (List.mem_of_mem_filter hl)
  rcases rewritten_cases hU kept hs with ⟨front, old, back, hfolded, hout, -, -⟩ | ⟨-, hout⟩
  · rw [hout] at hh
    rw [hfolded] at hsub
    rcases List.mem_append.mp hh with hh | hh
    · exact .inr (hsub h (List.mem_append_left _ hh))
    · rcases List.mem_cons.mp hh with hh | hh
      · exact .inl hh
      · exact .inr (hsub h (List.mem_append_right _ (List.mem_cons_of_mem _ hh)))
  · rw [hout] at hh
    rcases List.mem_append.mp hh with hh | hh
    · exact .inr (hsub h hh)
    · exact .inl (List.mem_singleton.mp hh)

end Lines

section Whole

variable {U : Lowering} {raw : List Char}

/-- What becomes of a request: nothing, the lines of the name go, or they are folded into one. -/
theorem strip_cases (U : Lowering) (raw : List Char) :
    (headerValues U (message raw) supported = [] ∧ stripUnsupportedExtensions U raw = raw) ∨
    (keptTags (headerValues U (message raw) supported) = [] ∧
      stripUnsupportedExtensions U raw =
        render { message raw with headers := (message raw).headers.filter (!hasName U supported ·) }) ∨
    (keptTags (headerValues U (message raw) supported) ≠ [] ∧
      stripUnsupportedExtensions U raw = render { message raw with
        headers := rewritten U (keptTags (headerValues U (message raw) supported)) (message raw).headers }) := by
  rw [stripUnsupportedExtensions, parse_message]
  dsimp only
  by_cases hvalues : headerValues U (message raw) supported = []
  · exact .inl ⟨hvalues, if_pos hvalues⟩
  rw [if_neg hvalues]
  by_cases hkept : keptTags (headerValues U (message raw) supported) = []
  · refine .inr (.inl ⟨hkept, ?_⟩)
    rw [if_pos hkept, removeHeader, removeHeader]
    congr 2
    rw [List.filter_filter]
    refine List.filter_congr fun h _ => ?_
    cases hcompact : hasName U compact h with
    | true => simp [supported_of_compact hcompact]
    | false => simp
  refine .inr (.inr ⟨hkept, ?_⟩)
  rw [if_neg hkept]
  generalize keptTags (headerValues U (message raw) supported) = kept
  have hsame : hasName U "Supported".toList = hasName U supported := rfl
  rw [setHeader, hsame, rewritten]
  change (if ((folded U (message raw).headers).filter (hasName U supported)).map headerValue = [] then _ else _) = _
  change _ = render { message raw with headers := (replaceFirst (hasName U supported) (newLine kept)
    (folded U (message raw).headers)).getD _ }
  cases hreplace : replaceFirst (hasName U supported) (newLine kept) (folded U (message raw).headers) with
  | none =>
      have hnone : (folded U (message raw).headers).filter (hasName U supported) = [] :=
        List.filter_eq_nil_iff.mpr fun h hh => by simp [replaceFirst_eq_none.mp hreplace h hh]
      rw [hnone, if_pos List.map_nil]
      rfl
  | some zs =>
      have hsome : (folded U (message raw).headers).filter (hasName U supported) ≠ [] := by
        intro hnil
        have hnone := replaceFirst_eq_none (y := newLine kept).mpr
          fun h hh => Bool.eq_false_of_not_eq_true (List.filter_eq_nil_iff.mp hnil h hh)
        rw [hreplace] at hnone
        cases hnone
      rw [if_neg (by simpa using hsome)]
      change render (match replaceFirst (hasName U supported) (newLine kept) (folded U (message raw).headers) with
        | some headers => _
        | none => _) = _
      rw [hreplace]
      rfl

/-- A message as its text is read, with other header lines, is read back from its own text. -/
theorem message_render (raw : List Char) {headers : List (List Char)} (h : ∀ l ∈ headers, HeaderLine l) :
    message (render { message raw with headers := headers }) = { message raw with headers := headers } := by
  have hback := parse_render ((parse_canonical (parse_message raw)).withHeaders h)
  rw [parse_message] at hback
  exact Except.ok.inj hback

theorem headerLines_message (raw : List Char) : ∀ l ∈ (message raw).headers, HeaderLine l :=
  (parse_canonical (parse_message raw)).headers

theorem headerLine_rewritten (raw : List Char) (hU : LowersOutside U) {kept : List (List Char)} (hkept : ∀ t ∈ kept, IsTag t) :
    ∀ l ∈ rewritten U kept (message raw).headers, HeaderLine l := by
  intro l hl
  rcases mem_rewritten hU hl with rfl | hl
  · exact newLine_headerLine hkept
  · exact headerLines_message raw l hl

/-- The part about the other lines is the one that may fail. -/
theorem others_iff (hU : LowersOutside U) (kept hs : List (List Char)) :
    (rewritten U kept hs).filter (!hasName U supported ·) = hs.filter (!hasName U supported ·) ↔
      ∀ h ∈ (hs.filter namesSupported).drop 1, ':' ∈ h := by
  rw [rewritten_others hU, others_keepFirst]
  refine forall₂_congr fun h hh => ?_
  have hnames : namesSupported h = true := (List.mem_filter.mp (List.mem_of_mem_drop hh)).2
  rw [hasName_of_names hnames]
  simp

theorem optionTags_eq (raw : List Char) :
    optionTags U raw = (tags ((supportedLines U raw).map headerValue)).map toAsciiLowercase := rfl

theorem unsupported_of_kept_nil (h : keptTags (headerValues U (message raw) supported) = []) {tag : List Char}
    (htag : tag ∈ optionTags U raw) : isSupported tag = false := by
  refine Bool.eq_false_of_not_eq_true fun hsup => ?_
  have hmem := (mem_keptTags _ tag).mpr ⟨htag, hsup⟩
  rw [h] at hmem
  cases hmem

end Whole

/-- In the set of tags, the lines, the body and under repetition the filter is
exact; and the other header lines are kept just when none of them that reads as
the name stands without a colon behind another of the name. -/
theorem strips_exactly_iff (U : Lowering) (hU : LowersOutside U) (raw : List Char) : Exact U raw ↔ Colons U raw := by
  rcases strip_cases U raw with ⟨hvalues, hout⟩ | ⟨hkept, hout⟩ | ⟨hkept, hout⟩
  · have hlines : supportedLines U raw = [] := by simpa [headerValues, supportedLines] using hvalues
    have htags : optionTags U raw = [] := by rw [optionTags_eq, hlines]; rfl
    have hnil : keptTags (headerValues U (message raw) supported) = [] := by rw [hvalues]; rfl
    refine ⟨fun _ => .inl hnil, fun _ => ?_⟩
    constructor
    · intro tag
      rw [hout, htags]
      simp
    · rw [hout, hlines]
      exact Nat.zero_le 1
    · intro _
      rw [hout, hlines]
    · rw [hout]
    · rw [hout]
    · rw [hout, hout]
  · have hheaders : ∀ l ∈ (message raw).headers.filter (!hasName U supported ·), HeaderLine l :=
      fun l hl => headerLines_message raw l (List.mem_of_mem_filter hl)
    have hmessage := message_render raw hheaders
    rw [← hout] at hmessage
    have hlines : supportedLines U (stripUnsupportedExtensions U raw) = [] := by
      rw [supportedLines, hmessage, List.filter_filter]
      exact List.filter_eq_nil_iff.mpr fun h _ => by simp
    have htags : optionTags U (stripUnsupportedExtensions U raw) = [] := by rw [optionTags_eq, hlines]; rfl
    refine ⟨fun _ => .inl hkept, fun _ => ?_⟩
    constructor
    · intro tag
      rw [htags]
      refine ⟨fun h => (by cases h), fun ⟨htag, hsup⟩ => ?_⟩
      rw [unsupported_of_kept_nil hkept htag] at hsup
      cases hsup
    · rw [hlines]
      exact Nat.zero_le 1
    · intro _
      exact hlines
    · rw [otherLines, hmessage, List.filter_filter]
      simp [otherLines]
    · rw [hmessage]
    · rcases strip_cases U (stripUnsupportedExtensions U raw) with ⟨-, hsame⟩ | ⟨-, hsame⟩ | ⟨hne, -⟩
      · exact hsame
      · rw [hsame, hmessage, hout]
        dsimp only
        rw [List.filter_filter]
        simp
      · refine absurd ?_ hne
        have hnone : headerValues U (message (stripUnsupportedExtensions U raw)) supported = [] := by
          simpa [headerValues, supportedLines] using hlines
        rw [hnone]
        rfl
  · have hdistinct := distinct_keptTags (headerValues U (message raw) supported)
    have hheaders := headerLine_rewritten raw hU hdistinct.isTag
    have hmessage := message_render raw hheaders
    rw [← hout] at hmessage
    have hmem (tag : List Char) := mem_keptTags (headerValues U (message raw) supported) tag
    have hcolons : Colons U raw ↔ ∀ h ∈ ((message raw).headers.filter namesSupported).drop 1, ':' ∈ h :=
      ⟨fun h => h.resolve_left hkept, .inr⟩
    generalize keptTags (headerValues U (message raw) supported) = kept at *
    have hlines : supportedLines U (stripUnsupportedExtensions U raw) = [newLine kept] := by
      rw [supportedLines, hmessage, rewritten_supported hU]
    have hvalues : headerValues U (message (stripUnsupportedExtensions U raw)) supported = [joinTags kept] := by
      change (supportedLines U (stripUnsupportedExtensions U raw)).map headerValue = _
      rw [hlines, List.map_singleton, newLine_value hkept hdistinct.isTag]
    have hagain : keptTags (headerValues U (message (stripUnsupportedExtensions U raw)) supported) = kept := by
      rw [hvalues, keptTags_joined hdistinct hkept]
    have htags (tag : List Char) : tag ∈ optionTags U (stripUnsupportedExtensions U raw) ↔
        tag ∈ optionTags U raw ∧ isSupported tag = true := by
      have hone : tags [joinTags kept] = kept := by
        rw [tags, List.flatMap_singleton, splitOn_joinTags hkept hdistinct.isTag]
      rw [optionTags, hvalues, hone]
      exact hmem tag
    have hothers : otherLines U (stripUnsupportedExtensions U raw) = otherLines U raw ↔ Colons U raw := by
      rw [otherLines, hmessage, otherLines, others_iff hU, hcolons]
    refine ⟨fun h => hothers.mp h.others, fun h => ?_⟩
    constructor
    · exact htags
    · rw [hlines]
      exact Nat.le_refl 1
    · intro hnone
      obtain ⟨t, ht⟩ := List.exists_mem_of_ne_nil kept hkept
      have hin := (hmem (toAsciiLowercase t)).mp (List.mem_map_of_mem ht)
      rw [hnone _ hin.1] at hin
      cases hin.2
    · exact hothers.mpr h
    · rw [hmessage]
    · rcases strip_cases U (stripUnsupportedExtensions U raw) with ⟨hnone, -⟩ | ⟨hnone, -⟩ | ⟨-, hsame⟩
      · rw [hvalues] at hnone
        cases hnone
      · rw [hagain] at hnone
        exact absurd hnone hkept
      · rw [hsame, hagain, hmessage, hout]
        dsimp only
        rw [rewritten_again hU]

/-- Compact and long, in two spellings. -/
def offeredExtensions : List Char :=
  "INVITE sip:b SIP/2.0\r\nk: 100rel, Timer\r\nTo: b\r\nSUPPORTED : timer\r\n\r\nx".toList

theorem lowersOutside_asciiOnly : LowersOutside asciiOnly :=
  fun _ c _ h => .inr ⟨c, List.mem_singleton_self c, h⟩

theorem strips_exactly_iff_offered : Exact asciiOnly offeredExtensions ↔ Colons asciiOnly offeredExtensions :=
  strips_exactly_iff asciiOnly lowersOutside_asciiOnly offeredExtensions

/-- A line that is no header, and is gone behind the one that is. -/
theorem strip_loses_line : ¬Exact asciiOnly "INVITE sip:b SIP/2.0\r\nSupported: timer\r\nsupported\r\n\r\n".toList := by
  intro h
  exact absurd h.others (by decide +kernel)

end NixiSbc.Extensions
