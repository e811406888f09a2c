import NixiSbc.InviteTexts
import NixiSbc.TextSearch

namespace NixiSbc.ViaParams

open TextScan TextFields TextLines TextWords TextSearch SipBuilder InviteTexts

section Pieces

/-- Some text in front of the first piece. -/
def prepend (front : List Char) : List (List Char) → List (List Char)
  | [] => [front]
  | piece :: rest => (front ++ piece) :: rest

/-- The pieces between separators that stand outside quoted strings. -/
def splitOutside (sep : Char) : Bool → List Char → List (List Char)
  | _, [] => [[]]
  | true, '\\' :: c :: rest => prepend ['\\', c] (splitOutside sep true rest)
  | quoted, c :: rest =>
      if c = '"' then prepend [c] (splitOutside sep (!quoted) rest)
      else if quoted = false ∧ c = sep then [] :: splitOutside sep quoted rest
      else prepend [c] (splitOutside sep quoted rest)

def joinPieces (sep : Char) : List (List Char) → List Char
  | [] => []
  | first :: rest => first ++ rest.flatMap (sep :: ·)

theorem splitOutside_ne_nil (sep : Char) (quoted : Bool) (text : List Char) : splitOutside sep quoted text ≠ [] := by
  have hprepend (front : List Char) (pieces : List (List Char)) : prepend front pieces ≠ [] := by
    cases pieces <;> exact List.cons_ne_nil _ _
  fun_cases splitOutside sep quoted text with
  | case1 => exact List.cons_ne_nil _ _
  | case2 => exact hprepend _ _
  | case3 => exact hprepend _ _
  | case4 => exact List.cons_ne_nil _ _
  | case5 => exact hprepend _ _

theorem joinPieces_prepend (sep : Char) (front : List Char) (pieces : List (List Char)) :
    joinPieces sep (prepend front pieces) = front ++ joinPieces sep pieces := by
  cases pieces <;> simp [prepend, joinPieces]

/-- The pieces make up the text. -/
theorem joinPieces_splitOutside (sep : Char) (quoted : Bool) (text : List Char) :
    joinPieces sep (splitOutside sep quoted text) = text := by
  fun_induction splitOutside sep quoted text with
  | case1 => rfl
  | case2 c rest ih => rw [joinPieces_prepend, ih]; rfl
  | case3 quoted rest _ ih => rw [joinPieces_prepend, ih]; rfl
  | case4 quoted c rest _ _ hsep ih =>
      obtain ⟨piece, more, hpieces⟩ := List.exists_cons_of_ne_nil (splitOutside_ne_nil sep quoted rest)
      rw [hpieces] at ih ⊢
      rw [joinPieces, List.nil_append, List.flatMap_cons, List.cons_append, hsep.2]
      exact congrArg _ ih
  | case5 quoted c rest _ _ _ ih => rw [joinPieces_prepend, ih]; rfl

theorem eq_of_splitOutside {sep : Char} {text first : List Char} {rest : List (List Char)}
    (h : splitOutside sep false text = first :: rest) : text = first ++ rest.flatMap (sep :: ·) := by
  have hjoin := joinPieces_splitOutside sep false text
  rw [h] at hjoin
  exact hjoin.symm

/-- The first piece and what follows it. -/
theorem exists_pieces (sep : Char) (text : List Char) : ∃ first rest,
    splitOutside sep false text = first :: rest ∧ text = first ++ rest.flatMap (sep :: ·) := by
  obtain ⟨first, rest, hpieces⟩ := List.exists_cons_of_ne_nil (splitOutside_ne_nil sep false text)
  exact ⟨first, rest, hpieces, eq_of_splitOutside hpieces⟩

end Pieces

section Branch

/-- A branch parameter, however its name is spelled and spaced. -/
def isBranch (param : List Char) : Bool :=
  '=' ∈ param ∧ toAsciiLowercase (trim (param.takeWhile (· ≠ '='))) = "branch".toList

/-- The parameters with a fresh branch in the place of the first one, or behind all. -/
def freshParams (fresh : List Char) : List (List Char) → List (List Char)
  | [] => [branchText ++ fresh]
  | param :: rest =>
      if isBranch param then (param.takeWhile (· ≠ '=') ++ '=' :: fresh) :: rest
      else param :: freshParams fresh rest

/-- The value of a Via header with a fresh branch for the first Via in it. -/
def freshened (fresh value : List Char) : List Char :=
  match splitOutside ',' false value with
  | [] => []
  | top :: lower =>
      match splitOutside ';' false top with
      | [] => []
      | host :: params =>
          joinPieces ',' (joinPieces ';' (host :: freshParams fresh params) :: lower)

/-- What the renewal makes of the value of a Via line. -/
def edited (fresh value : List Char) : List Char :=
  match findSub branchText value with
  | some pos =>
      value.take (pos + branchText.length) ++ fresh ++
        (value.drop (pos + branchText.length)).dropWhile fun c => !(c = ';' ∨ c = ',')
  | none => value ++ ";branch=".toList ++ fresh

/-- The first branch that is found is the branch parameter of the first Via; or there is none at all and
just one Via. -/
inductive Direct (value : List Char) : Prop
  | present (top host : List Char) (before : List (List Char)) (param : List Char) (after lower : List (List Char)) :
      splitOutside ',' false value = top :: lower → splitOutside ';' false top = host :: (before ++ param :: after) →
      (∀ q ∈ before, isBranch q = false) → isBranch param = true →
      (∀ s ∈ host :: before, findSub branchText s = none) → branchText <+: trimStart param →
      (∀ c ∈ param, c ≠ ';' ∧ c ≠ ',') → Direct value
  | absent (host : List Char) (params : List (List Char)) :
      splitOutside ',' false value = [value] → splitOutside ';' false value = host :: params →
      (∀ q ∈ params, isBranch q = false) → findSub branchText value = none → Direct value

variable {fresh value : List Char}

theorem freshParams_of_none {params : List (List Char)} (h : ∀ q ∈ params, isBranch q = false) :
    freshParams fresh params = params ++ [branchText ++ fresh] := by
  induction params with
  | nil => rfl
  | cons q rest ih =>
      rw [freshParams, h q List.mem_cons_self, ih fun r hr => h r (List.mem_cons_of_mem q hr)]
      rfl

theorem freshParams_of_first {before after : List (List Char)} {param : List Char}
    (h : ∀ q ∈ before, isBranch q = false) (hparam : isBranch param = true) :
    freshParams fresh (before ++ param :: after) =
      before ++ (param.takeWhile (· ≠ '=') ++ '=' :: fresh) :: after := by
  induction before with
  | nil => simp [freshParams, hparam]
  | cons q rest ih =>
      rw [List.cons_append, freshParams, h q List.mem_cons_self, ih fun r hr => h r (List.mem_cons_of_mem q hr)]
      rfl

theorem semicolon_apart : ';' ∉ branchText := by decide

/-- No branch before a place is found when it is found there. -/
theorem findSub_pieces {host : List Char} {before : List (List Char)} (rest : List Char)
    (h : ∀ s ∈ host :: before, findSub branchText s = none) :
    findSub branchText (host ++ before.flatMap (';' :: ·) ++ ';' :: rest) =
      (findSub branchText rest).map (· + ((host ++ before.flatMap (';' :: ·)).length + 1)) := by
  induction before generalizing host with
  | nil =>
      have hhost := h host List.mem_cons_self
      rw [List.flatMap_nil, List.append_nil, findSub_append_cons branchText_ne_nil semicolon_apart, hhost]
      rfl
  | cons piece before ih =>
      have hhost := h host List.mem_cons_self
      have hpiece := ih fun s hs => h s (List.mem_cons_of_mem host hs)
      have hsplit : host ++ (piece :: before).flatMap (';' :: ·) ++ ';' :: rest =
          host ++ ';' :: (piece ++ before.flatMap (';' :: ·) ++ ';' :: rest) := by simp
      rw [hsplit, findSub_append_cons branchText_ne_nil semicolon_apart, hhost, hpiece]
      cases findSub branchText rest with
      | none => rfl
      | some k =>
          simp only [Option.map_some, Option.orElse_eq_orElse, Option.orElse_eq_or, Option.none_or, Option.some.injEq,
            List.flatMap_cons, List.length_append, List.length_cons]
          omega

theorem pieces_of_findSub {host : List Char} {before : List (List Char)} {rest : List Char} {pos : Nat}
    (h : findSub branchText (host ++ before.flatMap (';' :: ·) ++ ';' :: rest) = some pos)
    (hpos : (host ++ before.flatMap (';' :: ·)).length < pos) :
    ∀ s ∈ host :: before, findSub branchText s = none := by
  induction before generalizing host pos with
  | nil =>
      rw [List.flatMap_nil, List.append_nil] at h hpos
      rw [findSub_append_cons branchText_ne_nil semicolon_apart] at h
      intro s hs
      rw [List.mem_singleton.mp hs]
      cases hhost : findSub branchText host with
      | none => rfl
      | some k =>
          rw [hhost] at h
          cases h
          exact absurd (findSub_fits hhost) (by omega)
  | cons piece before ih =>
      have hsplit : host ++ (piece :: before).flatMap (';' :: ·) ++ ';' :: rest =
          host ++ ';' :: (piece ++ before.flatMap (';' :: ·) ++ ';' :: rest) := by simp
      have hlen : (host ++ (piece :: before).flatMap (';' :: ·)).length =
          host.length + 1 + (piece ++ before.flatMap (';' :: ·)).length := by
        simp only [List.flatMap_cons, List.length_append, List.length_cons]
        omega
      rw [hsplit, findSub_append_cons branchText_ne_nil semicolon_apart] at h
      cases hhost : findSub branchText host with
      | some k =>
          rw [hhost] at h
          cases h
          exact absurd (findSub_fits hhost) (by omega)
      | none =>
          rw [hhost] at h
          obtain ⟨k, hk, rfl⟩ := Option.map_eq_some_iff.mp (h : Option.map _ _ = some pos)
          exact List.forall_mem_cons.mpr ⟨hhost, ih hk (by omega)⟩

/-- What follows a parameter: the later ones and the lower Vias. -/
def tailOf (after lower : List (List Char)) : List Char :=
  after.flatMap (';' :: ·) ++ lower.flatMap (',' :: ·)

/-- What follows a piece begins with a separator. -/
theorem head_of_pieces {sep c : Char} {pieces : List (List Char)} (h : (pieces.flatMap (sep :: ·)).head? = some c) :
    c = sep := by
  cases pieces with
  | nil => cases h
  | cons piece rest => exact (Option.some.inj h).symm

theorem dropWhile_pieces {old : List Char} (hold : ∀ c ∈ old, c ≠ ';' ∧ c ≠ ',') (after lower : List (List Char)) :
    (old ++ (after.flatMap (';' :: ·) ++ lower.flatMap (',' :: ·))).dropWhile (fun c => !(c = ';' ∨ c = ',')) =
      after.flatMap (';' :: ·) ++ lower.flatMap (',' :: ·) := by
  rw [List.dropWhile_append_of_pos fun c hc => by simp [(hold c hc).1, (hold c hc).2]]
  cases htail : after.flatMap (';' :: ·) ++ lower.flatMap (',' :: ·) with
  | nil => rfl
  | cons c rest =>
      have hc : c = ';' ∨ c = ',' := by
        have hhead : (after.flatMap (';' :: ·) ++ lower.flatMap (',' :: ·)).head? = some c := by rw [htail]; rfl
        cases after with
        | nil => exact .inr (head_of_pieces hhead)
        | cons piece after => exact .inl (Option.some.inj hhead).symm
      exact List.dropWhile_cons_of_neg (by simpa using fun hne => hc.resolve_left hne)

theorem semicolon_not_blank : isWhiteSpace ';' = false := by decide

/-- A branch that is found first is replaced where it stands. -/
theorem edited_at {pos : Nat} (h : findSub branchText value = some pos) :
    edited fresh value = value.take (pos + branchText.length) ++ fresh ++
      (value.drop (pos + branchText.length)).dropWhile fun c => !(c = ';' ∨ c = ',') := by
  rw [edited, h]

theorem freshened_eq {top host : List Char} {params lower : List (List Char)}
    (htop : splitOutside ',' false value = top :: lower) (hparams : splitOutside ';' false top = host :: params) :
    freshened fresh value =
      host ++ (freshParams fresh params).flatMap (';' :: ·) ++ lower.flatMap (',' :: ·) := by
  unfold freshened
  rw [htop]
  dsimp only
  rw [hparams]
  rfl

/-- Blanks before the name of a branch. -/
theorem branch_spelled {blanks : List Char} (hblanks : ∀ c ∈ blanks, isWhiteSpace c = true) (old : List Char) :
    (blanks ++ (branchText ++ old)).takeWhile (· ≠ '=') = blanks ++ "branch".toList := by
  have hsign : ∀ c ∈ blanks, decide (c ≠ '=') = true := by
    intro c hc
    refine decide_eq_true ?_
    rintro rfl
    cases hblanks _ hc
  rw [List.takeWhile_append_of_pos hsign]
  rfl

theorem blank_apart {c : Char} (h : isWhiteSpace c = true) : c ∉ branchText := by
  intro hc
  rw [not_blank_of_all (by decide : branchText.all (!isWhiteSpace ·) = true) c hc] at h
  cases h

theorem edited_of_direct (h : Direct value) (fresh : List Char) : edited fresh value = freshened fresh value := by
  cases h with
  | present top host before param after lower htop hparams hbefore hparam hnone hspelled hold =>
      obtain ⟨old, hstart⟩ := hspelled
      have hblanks : ∀ c ∈ param.takeWhile isWhiteSpace, isWhiteSpace c = true := fun c hc => List.mem_takeWhile_imp hc
      have hname : param = param.takeWhile isWhiteSpace ++ (branchText ++ old) := by
        rw [hstart]
        exact List.takeWhile_append_dropWhile.symm
      generalize param.takeWhile isWhiteSpace = blanks at hblanks hname
      subst hname
      have hfound : findSub branchText (branchText ++ (old ++ tailOf after lower)) = some 0 :=
        findSub_of_first (List.prefix_append _ _) (Nat.zero_le _) nofun
      have hvalue : value = (host ++ before.flatMap (';' :: ·) ++ ';' :: blanks ++ branchText) ++ (old ++ tailOf after lower) := by
        rw [eq_of_splitOutside htop, eq_of_splitOutside hparams, tailOf]
        simp only [List.flatMap_append, List.flatMap_cons, List.append_assoc, List.cons_append]
      have hpos : findSub branchText value = some (host ++ before.flatMap (';' :: ·) ++ ';' :: blanks).length := by
        have hmiddle : (host ++ before.flatMap (';' :: ·) ++ ';' :: blanks ++ branchText) ++ (old ++ tailOf after lower) =
            host ++ before.flatMap (';' :: ·) ++ ';' :: (blanks ++ (branchText ++ (old ++ tailOf after lower))) := by simp
        rw [hvalue, hmiddle, findSub_pieces _ hnone, findSub_front branchText_ne_nil fun c hc => blank_apart (hblanks c hc),
          hfound]
        simp only [Option.map_some, Option.some.injEq, List.length_append, List.length_cons]
        omega
      rw [edited_at hpos, freshened_eq htop hparams, freshParams_of_first hbefore hparam, branch_spelled hblanks,
        ← List.length_append, hvalue, List.take_left, List.drop_left, tailOf, dropWhile_pieces]
      · simp [branchText]
      · exact fun c hc => hold c (List.mem_append_right _ (List.mem_append_right _ hc))
  | absent host params htop hparams hbefore hnone =>
      rw [edited, hnone, freshened_eq htop hparams, freshParams_of_none hbefore, List.flatMap_append,
        ← List.append_assoc host, ← eq_of_splitOutside hparams]
      simp [branchText]

section Places

variable {front back front' back' : List Char}

/-- No branch begins inside another one. -/
theorem cookie_once (draw : UInt64) : ∃ rest, newBranch draw = 'z' :: rest ∧ 'z' ∉ rest := by
  refine ⟨"9hG4bK".toList ++ showHex 16 draw.toNat, rfl, List.not_mem_append (by decide) fun hz => ?_⟩
  obtain ⟨d, hd⟩ := mem_showHex hz
  have hdigit : ∀ d : Nat, 'z' ≠ d.digitChar
    | 0 | 1 | 2 | 3 | 4 | 5 | 6 | 7 | 8 | 9 | 10 | 11 | 12 | 13 | 14 | 15 => by decide
    | _ + 16 => by simp [Nat.digitChar]
  exact hdigit d hd

theorem prefix_of_places {gap : List Char} {draw : UInt64}
    (h : newBranch draw ++ back = gap ++ (newBranch draw ++ back')) (hgap : gap ≠ []) : newBranch draw <+: gap := by
  obtain ⟨rest, hbranch, honce⟩ := cookie_once draw
  obtain ⟨c, more, rfl⟩ := List.exists_cons_of_ne_nil hgap
  rw [hbranch, List.cons_append, List.cons_append] at h
  obtain ⟨rfl, hrest⟩ := List.cons.inj h
  rw [hbranch, List.cons_prefix_cons]
  refine ⟨rfl, ?_⟩
  rcases List.append_eq_append_iff.mp hrest with ⟨tail, htail, -⟩ | ⟨tail, htail, hnext⟩
  · exact ⟨tail, htail.symm⟩
  · cases tail with
    | nil => exact ⟨[], by rw [htail, List.append_nil, List.append_nil]⟩
    | cons d tail =>
        obtain ⟨rfl, -⟩ := List.cons.inj hnext
        exact absurd (htail ▸ List.mem_append_right more List.mem_cons_self) honce

theorem gap_eq_nil {gap : List Char}
    (h : ∀ draw, newBranch draw ++ back = gap ++ (newBranch draw ++ back')) : gap = [] := by
  by_contra hgap
  rcases List.prefix_or_prefix_of_prefix (prefix_of_places (h 0) hgap) (prefix_of_places (h 1) hgap) with hzero | hone
  · exact absurd hzero (by decide)
  · exact absurd hone (by decide)

/-- Two places that take every branch alike are one place. -/
theorem place_unique (h : ∀ draw, front ++ newBranch draw ++ back = front' ++ newBranch draw ++ back') :
    front = front' ∧ back = back' := by
  have hfront : front = front' := by
    simp only [List.append_assoc] at h
    rcases List.append_eq_append_iff.mp (h 0) with ⟨gap, rfl, -⟩ | ⟨gap, rfl, -⟩
    · have hgap : gap = [] := gap_eq_nil fun draw => by simpa using h draw
      rw [hgap, List.append_nil]
    · have hgap : gap = [] := gap_eq_nil fun draw => by simpa using (h draw).symm
      rw [hgap, List.append_nil]
  subst hfront
  exact ⟨rfl, List.append_cancel_left (h 0)⟩

end Places

section Needed

variable {top host : List Char} {params lower : List (List Char)}

/-- The first branch parameter and what stands around it. -/
theorem exists_branch (h : ¬ ∀ q ∈ params, isBranch q = false) : ∃ before param after,
    params = before ++ param :: after ∧ (∀ q ∈ before, isBranch q = false) ∧ isBranch param = true := by
  obtain ⟨q, hq, hbranch⟩ : ∃ q ∈ params, isBranch q = true := by simpa using h
  obtain ⟨param, hfind⟩ := Option.isSome_iff_exists.mp (List.find?_isSome.mpr ⟨q, hq, hbranch⟩)
  obtain ⟨hparam, before, after, rfl, hbefore⟩ := List.find?_eq_some_iff_append.mp hfind
  exact ⟨before, param, after, rfl, fun r hr => by simpa using hbefore r hr, hparam⟩

theorem lower_eq_nil (h : lower.flatMap (',' :: ·) = []) : lower = [] := by
  cases lower with
  | nil => rfl
  | cons piece rest => cases h

/-- Where there is no branch parameter the fresh one goes behind the only Via. -/
theorem direct_of_no_branch (htop : splitOutside ',' false value = top :: lower)
    (hparams : splitOutside ';' false top = host :: params) (hbefore : ∀ q ∈ params, isBranch q = false)
    (h : ∀ draw, edited (newBranch draw) value = freshened (newBranch draw) value) : Direct value := by
  have hvalue := eq_of_splitOutside htop
  have hfresh (draw : UInt64) : freshened (newBranch draw) value =
      (top ++ ";branch=".toList) ++ newBranch draw ++ lower.flatMap (',' :: ·) := by
    rw [freshened_eq htop hparams, freshParams_of_none hbefore, List.flatMap_append, ← List.append_assoc host,
      ← eq_of_splitOutside hparams]
    simp [branchText]
  cases hfind : findSub branchText value with
  | none =>
      have hplaces (draw : UInt64) : (value ++ ";branch=".toList) ++ newBranch draw ++ [] =
          (top ++ ";branch=".toList) ++ newBranch draw ++ lower.flatMap (',' :: ·) := by
        rw [← hfresh, ← h, edited, hfind, List.append_nil]
      have hlower := lower_eq_nil (place_unique hplaces).2.symm
      have htext : value = top := by rw [hvalue, hlower]; exact List.append_nil top
      subst htext
      exact .absent host params (hlower ▸ htop) hparams hbefore hfind
  | some pos =>
      have hplaces (draw : UInt64) : value.take (pos + branchText.length) ++ newBranch draw ++
          (value.drop (pos + branchText.length)).dropWhile (fun c => !(c = ';' ∨ c = ',')) =
            (top ++ ";branch=".toList) ++ newBranch draw ++ lower.flatMap (',' :: ·) := by
        rw [← hfresh, ← h, edited_at hfind]
      have hprefix : top ++ ";branch=".toList <+: top ++ lower.flatMap (',' :: ·) := by
        rw [← (place_unique hplaces).1, ← hvalue]
        exact List.take_prefix _ _
      rw [List.prefix_append_right_inj] at hprefix
      cases lower with
      | nil => exact absurd hprefix (by decide)
      | cons piece rest => exact absurd (List.cons_prefix_cons.mp hprefix).1 (by decide)

/-- A name that ends in `branch` and is that when it is trimmed has blanks before it. -/
theorem blanks_of_trim {front : List Char} (h : (trim (front ++ "branch".toList)).length = 6) :
    ∀ c ∈ front, isWhiteSpace c = true := by
  have hstart : trimStart front = [] := by
    by_contra hne
    rw [trim, trimStart_append _ hne, trimEnd_append _ (by decide), List.length_append] at h
    exact hne (List.length_eq_zero_iff.mp (Nat.add_eq_right.mp h))
  exact fun c hc => List.dropWhile_eq_nil_iff.mp hstart c hc

/-- The name of a parameter that is a branch, and its value. -/
theorem branch_parts {param : List Char} (h : isBranch param = true) : ∃ name old,
    param = name ++ '=' :: old ∧ '=' ∉ name ∧ toAsciiLowercase (trim name) = "branch".toList := by
  obtain ⟨hsign, hname⟩ := of_decide_eq_true h
  have hsplit : splitOnce '=' param = some (param.takeWhile (· ≠ '='), (param.dropWhile (· ≠ '=')).drop 1) :=
    if_pos hsign
  exact ⟨_, _, eq_of_splitOnce hsplit, not_mem_takeWhile_ne '=' param, hname⟩

/-- A text that ends where a pattern ends, after the last separator, ends in the pattern. -/
theorem ends_with {sep : Char} {pattern front before name : List Char} (hsep : sep ∉ pattern)
    (h : front ++ pattern = before ++ sep :: name) : ∃ blanks, name = blanks ++ pattern ∧ front = before ++ sep :: blanks := by
  have hsplit : front ++ pattern = (before ++ [sep]) ++ name := by simpa using h
  rcases List.append_eq_append_iff.mp hsplit with ⟨more, hmore, rfl⟩ | ⟨more, rfl, rfl⟩
  · rcases List.eq_nil_or_concat more with rfl | ⟨more, c, rfl⟩
    · exact ⟨[], rfl, by rw [List.append_nil] at hmore; exact hmore.symm⟩
    · have hlast := congrArg List.getLast? hmore
      rw [List.concat_eq_append, ← List.append_assoc, List.getLast?_concat, List.getLast?_concat] at hlast
      cases hlast
      exact absurd (List.mem_append_left name (by simp)) hsep
  · exact ⟨more, rfl, by simp⟩

theorem take_found {pos : Nat} (h : findSub branchText value = some pos) :
    value.take (pos + branchText.length) = value.take pos ++ branchText := by
  obtain ⟨-, hat, -⟩ := findSub_eq_some h
  rw [List.take_add, ← List.prefix_iff_eq_take.mp hat]

theorem stops_of_dropWhile {p : Char → Bool} {old tail : List Char} (h : (old ++ tail).dropWhile p = tail) :
    ∀ c ∈ old, p c = true := by
  have htake : (old ++ tail).takeWhile p = old := by
    have hparts := List.takeWhile_append_dropWhile (p := p) (l := old ++ tail)
    rw [h] at hparts
    exact List.append_cancel_right hparts
  exact fun c hc => List.mem_takeWhile_imp (htake.symm ▸ hc)

/-- The branch of the first Via is replaced only where it is found first. -/
theorem direct_of_branch {before after : List (List Char)} {param : List Char}
    (htop : splitOutside ',' false value = top :: lower)
    (hparams : splitOutside ';' false top = host :: (before ++ param :: after))
    (hbefore : ∀ q ∈ before, isBranch q = false) (hparam : isBranch param = true)
    (h : ∀ draw, edited (newBranch draw) value = freshened (newBranch draw) value) : Direct value := by
  obtain ⟨name, old, rfl, hsign, hname⟩ := branch_parts hparam
  generalize hfront : host ++ before.flatMap (';' :: ·) = front
  have hvalue : value = (front ++ ';' :: name ++ ['=']) ++ (old ++ tailOf after lower) := by
    rw [eq_of_splitOutside htop, eq_of_splitOutside hparams, tailOf, ← hfront]
    simp only [List.flatMap_append, List.flatMap_cons, List.append_assoc, List.cons_append, List.nil_append]
  have hfresh (draw : UInt64) : freshened (newBranch draw) value =
      (front ++ ';' :: name ++ ['=']) ++ newBranch draw ++ tailOf after lower := by
    have htake : (name ++ '=' :: old).takeWhile (· ≠ '=') = name := by
      have hsplit := splitOnce_append hsign old
      rw [splitOnce, if_pos (List.mem_append_right name List.mem_cons_self)] at hsplit
      exact (Prod.mk.inj (Option.some.inj hsplit)).1
    rw [freshened_eq htop hparams, freshParams_of_first hbefore hparam, htake, tailOf, ← hfront]
    simp only [List.flatMap_append, List.flatMap_cons, List.append_assoc, List.cons_append, List.nil_append]
  cases hfind : findSub branchText value with
  | none =>
      have hplaces (draw : UInt64) : (value ++ ";branch=".toList) ++ newBranch draw ++ [] =
          (front ++ ';' :: name ++ ['=']) ++ newBranch draw ++ tailOf after lower := by
        rw [← hfresh, ← h, edited, hfind, List.append_nil]
      have hlen := congrArg List.length (place_unique hplaces).1
      have hsum := congrArg List.length hvalue
      rw [List.length_append] at hlen hsum
      have hsemicolon : ";branch=".toList.length = 8 := rfl
      omega
  | some pos =>
      have hplaces (draw : UInt64) : value.take (pos + branchText.length) ++ newBranch draw ++
          (value.drop (pos + branchText.length)).dropWhile (fun c => !(c = ';' ∨ c = ',')) =
            (front ++ ';' :: name ++ ['=']) ++ newBranch draw ++ tailOf after lower := by
        rw [← hfresh, ← h, edited_at hfind]
      obtain ⟨hplace, hrest⟩ := place_unique hplaces
      have hdrop : value.drop (pos + branchText.length) = old ++ tailOf after lower := by
        have hparts := List.take_append_drop (pos + branchText.length) value
        rw [hplace] at hparts
        nth_rewrite 2 [hvalue] at hparts
        exact List.append_cancel_left hparts
      rw [hdrop] at hrest
      have hend : value.take pos ++ "branch".toList = front ++ ';' :: name := by
        have hsame := (take_found hfind).symm.trans hplace
        have htext : branchText = "branch".toList ++ ['='] := rfl
        rw [htext, ← List.append_assoc] at hsame
        exact List.append_cancel_right hsame
      obtain ⟨blanks, rfl, htake⟩ := ends_with (by decide) hend
      have hblanks : ∀ c ∈ blanks, isWhiteSpace c = true := by
        have hlen := congrArg List.length hname
        rw [toAsciiLowercase, List.length_map] at hlen
        exact blanks_of_trim hlen
      have hlater : (host ++ before.flatMap (';' :: ·)).length < pos := by
        have hlen := congrArg List.length htake
        rw [List.length_take_of_le (findSub_eq_some hfind).1, List.length_append, List.length_cons] at hlen
        rw [hfront]
        omega
      have hnone : ∀ s ∈ host :: before, findSub branchText s = none := by
        have hfound : findSub branchText (host ++ before.flatMap (';' :: ·) ++
            ';' :: (blanks ++ (branchText ++ (old ++ tailOf after lower)))) = some pos := by
          rw [← hfind, hvalue, hfront]
          simp [branchText]
        exact pieces_of_findSub hfound hlater
      have htext : blanks ++ "branch".toList ++ '=' :: old = blanks ++ (branchText ++ old) := by simp [branchText]
      rw [htext] at hparams hparam
      refine .present top host before _ after lower htop hparams hbefore hparam hnone ?_ ?_
      · rw [trimStart, List.dropWhile_append_of_pos hblanks]
        exact List.prefix_append branchText old
      · have hkept := stops_of_dropWhile hrest
        intro c hc
        rcases List.mem_append.mp hc with hc | hc
        · refine ⟨?_, ?_⟩
          all_goals
            rintro rfl
            cases hblanks _ hc
        · rcases List.mem_append.mp hc with hc | hc
          · have hletters : branchText.all (fun d => d ≠ ';' ∧ d ≠ ',') = true := by decide
            exact of_decide_eq_true (List.all_eq_true.mp hletters c hc)
          · simpa using hkept c hc

theorem direct_of_edited (h : ∀ draw, edited (newBranch draw) value = freshened (newBranch draw) value) :
    Direct value := by
  obtain ⟨top, lower, htop, -⟩ := exists_pieces ',' value
  obtain ⟨host, params, hparams, -⟩ := exists_pieces ';' top
  by_cases hnone : ∀ q ∈ params, isBranch q = false
  · exact direct_of_no_branch htop hparams hnone h
  · obtain ⟨before, param, after, rfl, hbefore, hparam⟩ := exists_branch hnone
    exact direct_of_branch htop hparams hbefore hparam h

end Needed

end Branch

end NixiSbc.ViaParams
