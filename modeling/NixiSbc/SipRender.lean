import NixiSbc.CrlfLines
import NixiSbc.SipBuilder

namespace NixiSbc.SipRender

open RawSip SipBuilder TextScan TextLines CrlfLines

/-- Serialize back to text: every line with a line end, an empty line, the body. -/
def render (m : RawSipMessage) : List Char :=
  m.startLine ++ crlf ++ m.headers.flatMap (· ++ crlf) ++ crlf ++ m.body

/-- A header line that the parser reads back as one. -/
structure HeaderLine (line : List Char) : Prop where
  ne_nil : line ≠ []
  one_line : '\n' ∉ line
  not_folded : isFolded line = false

/-- A message that its text determines. -/
structure Canonical (m : RawSipMessage) : Prop where
  no_cr : '\r' ∉ m.startLine
  no_lf : '\n' ∉ m.startLine
  trimmed : trim m.startLine = m.startLine
  headers : ∀ h ∈ m.headers, HeaderLine h

theorem Canonical.withHeaders {m : RawSipMessage} (h : Canonical m) {headers : List (List Char)}
    (hheaders : ∀ l ∈ headers, HeaderLine l) : Canonical { m with headers := headers } :=
  ⟨h.no_cr, h.no_lf, h.trimmed, hheaders⟩

theorem render_eq (m : RawSipMessage) :
    render m = joinLines m.startLine m.headers ++ crlfCrlf ++ m.body := by
  have hlines (line : List Char) (rest : List (List Char)) :
      line ++ crlf ++ rest.flatMap (· ++ crlf) = joinLines line rest ++ crlf := by
    induction rest generalizing line with
    | nil => simp [joinLines]
    | cons next rest ih =>
        rw [List.flatMap_cons, ← List.append_assoc, joinLines, List.append_assoc line,
          List.append_assoc line, List.append_assoc crlf, ih next]
        simp [crlf]
  rw [render, hlines, List.append_assoc (joinLines _ _)]
  rfl

/-- Without a line end in it, a text cannot hold the start of an empty line. -/
theorem findSub_skip {line rest : List Char} (h : OneLine line) :
    findSub crlfCrlf (line ++ '\r' :: rest) =
      (findSub crlfCrlf ('\r' :: rest)).map (· + line.length) := by
  induction line with
  | nil => simp
  | cons c cs ih =>
      have hstart : ¬ crlfCrlf <+: c :: (cs ++ '\r' :: rest) := by
        intro hp
        rw [crlfCrlf, List.cons_prefix_cons] at hp
        cases cs with
        | nil => cases (List.cons_prefix_cons.mp hp.2).1
        | cons d ds =>
            rw [List.cons_append, List.cons_prefix_cons] at hp
            exact h.not_crlf ⟨hp.1.symm, congrArg some hp.2.1.symm⟩
      rw [List.cons_append, findSub, if_neg hstart, ih h.of_cons, Option.map_map]
      rfl

theorem findSub_line {line rest : List Char} (h : OneLine line) (hrest : ¬ crlf <+: rest) :
    findSub crlfCrlf (line ++ '\r' :: '\n' :: rest) =
      (findSub crlfCrlf rest).map (· + (line.length + 2)) := by
  have hcr : ¬ crlfCrlf <+: '\r' :: '\n' :: rest := by
    intro hp
    rw [crlfCrlf, List.cons_prefix_cons, List.cons_prefix_cons] at hp
    exact hrest hp.2.2
  have hlf : ¬ crlfCrlf <+: '\n' :: rest := by
    intro hp
    cases (List.cons_prefix_cons.mp hp).1
  rw [findSub_skip h, findSub, if_neg hcr, findSub, if_neg hlf, Option.map_map, Option.map_map]
  refine congrArg (Option.map · _) (funext fun n => ?_)
  simp only [Function.comp_apply]
  omega

theorem crlf_not_front {line more : List Char} (hne : line ≠ []) (h : OneLine line) :
    ¬ crlf <+: line ++ '\r' :: more := by
  intro hp
  cases line with
  | nil => exact hne rfl
  | cons c cs =>
      obtain ⟨hc, htail⟩ := List.cons_prefix_cons.mp hp
      cases cs with
      | nil => cases (List.cons_prefix_cons.mp htail).1
      | cons d ds =>
          exact h.not_crlf ⟨hc.symm, congrArg some (List.cons_prefix_cons.mp htail).1.symm⟩

/-- The first empty line is the one behind the lines. -/
theorem findSub_joinLines {line : List Char} {rest : List (List Char)} (body : List Char)
    (hline : OneLine line) (hrest : ∀ l ∈ rest, l ≠ [] ∧ OneLine l) :
    findSub crlfCrlf (joinLines line rest ++ crlfCrlf ++ body) =
      some (joinLines line rest).length := by
  induction rest generalizing line with
  | nil =>
      rw [joinLines, List.append_assoc]
      change findSub crlfCrlf (line ++ '\r' :: ('\n' :: '\r' :: '\n' :: body)) = _
      rw [findSub_skip hline, findSub, if_pos ⟨body, rfl⟩]
      simp
  | cons next rest ih =>
      obtain ⟨hne, hnext⟩ := hrest next List.mem_cons_self
      have hmore := ih hnext fun l hl => hrest l (List.mem_cons_of_mem _ hl)
      have hstart : ¬ crlf <+: joinLines next rest ++ crlfCrlf ++ body := by
        rw [List.append_assoc]
        obtain ⟨more, hjoin⟩ := joinLines_append next rest ('\n' :: '\r' :: '\n' :: body)
        rw [show crlfCrlf ++ body = '\r' :: '\n' :: '\r' :: '\n' :: body from rfl, hjoin]
        exact crlf_not_front hne hnext
      rw [joinLines, List.append_assoc, List.append_assoc, List.cons_append, List.cons_append,
        ← List.append_assoc (joinLines next rest), findSub_line hline hstart, hmore]
      simp only [Option.map_some, List.length_append, List.length_cons]
      congr 1
      omega

theorem collectHeaders_lines (current : Option (List Char)) {ls : List (List Char)}
    (h : ∀ l ∈ ls, HeaderLine l) : collectHeaders current ls = current.toList ++ ls := by
  induction ls generalizing current with
  | nil => rw [collectHeaders, List.append_nil]
  | cons l ls ih =>
      have hl := h l List.mem_cons_self
      rw [collectHeaders, if_neg (by rw [hl.not_folded]; decide), if_neg hl.ne_nil,
        ih (some l) fun l' hl' => h l' (List.mem_cons_of_mem _ hl')]
      rfl

theorem takeWhile_joinLines {line : List Char} (rest : List (List Char)) (hcr : '\r' ∉ line)
    (hlf : '\n' ∉ line) :
    (joinLines line rest).takeWhile (fun c => c ≠ '\r' ∧ c ≠ '\n') = line := by
  have hall : ∀ c ∈ line, decide (c ≠ '\r' ∧ c ≠ '\n') = true := by
    intro c hc
    rw [decide_eq_true_iff]
    constructor
    · rintro rfl
      exact hcr hc
    · rintro rfl
      exact hlf hc
  cases rest with
  | nil => exact List.takeWhile_eq_self_iff.mpr hall
  | cons next rest =>
      rw [joinLines, List.takeWhile_append_of_pos hall]
      simp

/-- What is written is read back. -/
theorem parse_render {m : RawSipMessage} (h : Canonical m) : parse (render m) = .ok m := by
  have hlines : ∀ l ∈ m.headers, l ≠ [] ∧ '\n' ∉ l :=
    fun l hl => ⟨(h.headers l hl).ne_nil, (h.headers l hl).one_line⟩
  have hends := findSub_joinLines m.body (oneLine_of_not_lf h.no_lf)
    fun l hl => ⟨(hlines l hl).1, oneLine_of_not_lf (hlines l hl).2⟩
  rw [render_eq, parse, splitBody_append hends]
  dsimp only
  rw [takeWhile_joinLines m.headers h.no_cr h.no_lf, h.trimmed, lines_joinLines h.no_lf hlines,
    collectHeaders_lines none h.headers]
  rfl

/-- A continuation keeps the beginning of its header. -/
theorem HeaderLine.fold {header : List Char} (h : HeaderLine header) {line : List Char}
    (hline : '\n' ∉ line) : HeaderLine (header ++ ' ' :: trim line) where
  ne_nil := fun he => h.ne_nil (List.append_eq_nil_iff.mp he).1
  one_line := by
    simp only [List.mem_append, List.mem_cons, not_or]
    exact ⟨h.one_line, by decide, fun hm => hline (mem_of_mem_trim hm)⟩
  not_folded := by
    have hhead : (header ++ ' ' :: trim line).head? = header.head? :=
      List.head?_append_of_ne_nil header h.ne_nil
    rw [isFolded, hhead]
    exact h.not_folded

theorem headerLine_collectHeaders {current : Option (List Char)} {ls : List (List Char)}
    (hcurrent : ∀ h ∈ current, HeaderLine h) (hls : ∀ l ∈ ls, '\n' ∉ l) :
    ∀ h ∈ collectHeaders current ls, HeaderLine h := by
  induction ls generalizing current with
  | nil =>
      intro h hh
      exact hcurrent h (Option.mem_toList.mp hh)
  | cons l ls ih =>
      have hl := hls l List.mem_cons_self
      have hrest : ∀ l' ∈ ls, '\n' ∉ l' := fun l' hl' => hls l' (List.mem_cons_of_mem _ hl')
      intro h hh
      rw [collectHeaders] at hh
      split at hh
      next =>
        refine ih (fun h' hh' => ?_) hrest h hh
        obtain ⟨header, hheader, rfl⟩ := Option.map_eq_some_iff.mp hh'
        exact (hcurrent header hheader).fold hl
      next hfolded =>
        split at hh
        next =>
          rcases List.mem_append.mp hh with hh | hh
          · exact hcurrent h (Option.mem_toList.mp hh)
          · exact ih (fun h' hh' => (by cases hh')) hrest h hh
        next hne =>
          rcases List.mem_append.mp hh with hh | hh
          · exact hcurrent h (Option.mem_toList.mp hh)
          · refine ih (fun h' hh' => ?_) hrest h hh
            cases hh'
            exact ⟨hne, hl, Bool.not_eq_true _ ▸ hfolded⟩

/-- Whatever the text, the parsed message is one that its own text determines. -/
theorem parse_canonical {raw : List Char} {m : RawSipMessage} (h : parse raw = .ok m) :
    Canonical m := by
  rw [parse] at h
  cases h
  have hstart {part : List Char} {c : Char}
      (hc : c ∈ trim (part.takeWhile fun c => c ≠ '\r' ∧ c ≠ '\n')) : c ≠ '\r' ∧ c ≠ '\n' := by
    have hkeep := List.mem_takeWhile_imp (mem_of_mem_trim hc)
    exact of_decide_eq_true hkeep
  exact {
    no_cr := fun hc => (hstart hc).1 rfl
    no_lf := fun hc => (hstart hc).2 rfl
    trimmed := trim_trim _
    headers := headerLine_collectHeaders (fun h hh => (by cases hh))
      fun l hl => not_mem_of_mem_lines (List.mem_of_mem_drop hl) }

end NixiSbc.SipRender
