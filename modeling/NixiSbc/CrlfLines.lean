import NixiSbc.TextFields
import NixiSbc.TextLines

namespace NixiSbc.CrlfLines

open TextFields TextLines

/-- No line end inside. -/
def OneLine (line : List Char) : Prop := ¬ ['\r', '\n'] <:+: line

theorem splitCrlf_ne_nil (text : List Char) : splitCrlf text ≠ [] := by
  fun_induction splitCrlf text with
  | case1 => exact List.cons_ne_nil _ _
  | case2 => exact List.cons_ne_nil _ _
  | case3 => exact List.cons_ne_nil _ _
  | case4 => exact List.cons_ne_nil _ _

/-- The first line of a text, up to its first line end. -/
def firstLine (text : List Char) : List Char := (splitCrlf text).headD []

theorem splitCrlf_eq (text : List Char) :
    splitCrlf text = firstLine text :: (splitCrlf text).tail := by
  cases hsplit : splitCrlf text with
  | nil => exact absurd hsplit (splitCrlf_ne_nil text)
  | cons line rest => rw [firstLine, hsplit]; rfl

theorem splitCrlf_cons {c : Char} {rest : List Char} (h : ¬ (c = '\r' ∧ rest.head? = some '\n')) :
    splitCrlf (c :: rest) = (c :: firstLine rest) :: (splitCrlf rest).tail := by
  rw [splitCrlf.eq_def]
  split
  next heq => cases heq
  next heq =>
    cases heq
    exact absurd ⟨rfl, rfl⟩ h
  next c' rest' _ heq =>
    cases heq
    rw [splitCrlf_eq rest]
    rfl

theorem splitCrlf_of_crlf (rest : List Char) : splitCrlf ('\r' :: '\n' :: rest) = [] :: splitCrlf rest := rfl

/-- Along a text, by one line end at a time, or one character that begins none. -/
@[elab_as_elim]
theorem crlf_induction {motive : List Char → Prop} (text : List Char) (nil : motive [])
    (crlf : ∀ rest, motive rest → motive ('\r' :: '\n' :: rest))
    (char : ∀ c rest, ¬ (c = '\r' ∧ rest.head? = some '\n') → motive rest → motive (c :: rest)) :
    motive text := by
  fun_induction splitCrlf text with
  | case1 => exact nil
  | case2 rest ih => exact crlf rest ih
  | case3 c rest hno hnil _ => exact absurd hnil (splitCrlf_ne_nil rest)
  | case4 c rest hno first more hsplit ih =>
      refine char c rest ?_ ih
      rintro ⟨hc, hhead⟩
      obtain ⟨tail, htail⟩ := List.head?_eq_some_iff.mp hhead
      exact hno tail hc htail

theorem firstLine_cons (c : Char) (rest : List Char) :
    firstLine (c :: rest) =
      if c = '\r' ∧ rest.head? = some '\n' then [] else c :: firstLine rest := by
  split
  next h =>
    obtain ⟨rfl, hhead⟩ := h
    obtain ⟨tail, rfl⟩ := List.head?_eq_some_iff.mp hhead
    rfl
  next h => rw [firstLine, splitCrlf_cons h]; rfl

theorem firstLine_front (text : List Char) : firstLine text <+: text := by
  induction text with
  | nil => exact List.prefix_rfl
  | cons c rest ih =>
      rw [firstLine_cons]
      split
      next => exact List.nil_prefix
      next => exact List.cons_prefix_cons.mpr ⟨rfl, ih⟩

theorem OneLine.of_cons {c : Char} {line : List Char} (h : OneLine (c :: line)) : OneLine line :=
  fun hin => h (hin.trans (List.suffix_cons c line).isInfix)

theorem OneLine.not_crlf {c : Char} {line : List Char} (h : OneLine (c :: line)) :
    ¬ (c = '\r' ∧ line.head? = some '\n') := by
  rintro ⟨rfl, hhead⟩
  obtain ⟨tail, rfl⟩ := List.head?_eq_some_iff.mp hhead
  exact h ⟨[], tail, rfl⟩

theorem oneLine_cons {c : Char} {line : List Char} (hc : ¬ (c = '\r' ∧ line.head? = some '\n'))
    (h : OneLine line) : OneLine (c :: line) := by
  intro hin
  rcases List.infix_cons_iff.mp hin with hp | hin
  · obtain ⟨tail, htail⟩ := hp
    cases htail
    exact hc ⟨rfl, rfl⟩
  · exact h hin

/-- A line end in the middle splits the lines of the two parts. -/
theorem splitCrlf_crlf (text rest : List Char) :
    splitCrlf (text ++ '\r' :: '\n' :: rest) = splitCrlf text ++ splitCrlf rest := by
  induction text using crlf_induction with
  | nil => rfl
  | crlf text ih =>
      rw [List.cons_append, List.cons_append, splitCrlf_of_crlf, splitCrlf_of_crlf, ih, List.cons_append]
  | char c text hhead ih =>
      have happend : ¬ (c = '\r' ∧ (text ++ '\r' :: '\n' :: rest).head? = some '\n') := by
        cases text with
        | nil => simp
        | cons d ds => exact hhead
      rw [List.cons_append, splitCrlf_cons happend, splitCrlf_cons hhead, firstLine, ih, splitCrlf_eq text]
      rfl

theorem splitCrlf_oneLine {line : List Char} (h : OneLine line) : splitCrlf line = [line] := by
  induction line with
  | nil => rfl
  | cons c line ih =>
      rw [splitCrlf_cons h.not_crlf, firstLine, ih h.of_cons]
      rfl

theorem splitCrlf_join (line : List Char) (rest : List (List Char)) :
    splitCrlf (joinLines line rest) = (line :: rest).flatMap splitCrlf := by
  induction rest generalizing line with
  | nil => simp [joinLines]
  | cons next rest ih =>
      rw [joinLines, splitCrlf_crlf, ih]
      rfl

/-- The lines of a text make it up. -/
theorem joinLines_splitCrlf (text : List Char) : joinLines (firstLine text) (splitCrlf text).tail = text := by
  induction text using crlf_induction with
  | nil => rfl
  | crlf rest ih =>
      have hsplit : splitCrlf ('\r' :: '\n' :: rest) = [] :: firstLine rest :: (splitCrlf rest).tail := by
        rw [splitCrlf_of_crlf, ← splitCrlf_eq]
      rw [firstLine, hsplit, List.headD_cons, List.tail_cons, joinLines, ih]
      rfl
  | char c rest hhead ih =>
      rw [firstLine_cons, if_neg hhead, splitCrlf_cons hhead, List.tail_cons]
      cases hmore : (splitCrlf rest).tail with
      | nil =>
          rw [hmore, joinLines] at ih
          rw [joinLines, ih]
      | cons next more =>
          rw [hmore, joinLines] at ih
          rw [joinLines, List.cons_append, ih]

theorem joinLines_middle (first : List Char) (front : List (List Char)) (line : List Char) (back : List (List Char)) :
    joinLines first (front ++ line :: back) = joinLines first front ++ '\r' :: '\n' :: joinLines line back := by
  induction front generalizing first with
  | nil => rfl
  | cons next front ih =>
      rw [List.cons_append, joinLines, joinLines, ih, List.append_assoc]
      rfl

theorem flatMap_splitCrlf {ls : List (List Char)} (h : ∀ l ∈ ls, OneLine l) :
    ls.flatMap splitCrlf = ls := by
  induction ls with
  | nil => rfl
  | cons l ls ih =>
      rw [List.flatMap_cons, splitCrlf_oneLine (h l List.mem_cons_self),
        ih fun k hk => h k (List.mem_cons_of_mem _ hk)]
      rfl

theorem splitCrlf_joinLines {line : List Char} {rest : List (List Char)} (hline : OneLine line)
    (hrest : ∀ l ∈ rest, OneLine l) : splitCrlf (joinLines line rest) = line :: rest := by
  rw [splitCrlf_join, flatMap_splitCrlf (List.forall_mem_cons.mpr ⟨hline, hrest⟩)]

/-- A character that is no part of a line end joins two lines into one. -/
theorem OneLine.append_cons {text rest : List Char} {c : Char} (h : OneLine text) (hc : c ≠ '\r')
    (hc' : c ≠ '\n') (hrest : OneLine rest) : OneLine (text ++ c :: rest) := by
  induction text with
  | nil => exact oneLine_cons (fun hcr => hc hcr.1) hrest
  | cons d ds ih =>
      refine oneLine_cons ?_ (ih h.of_cons)
      rintro ⟨hd, hhead⟩
      cases ds with
      | nil => exact hc' (Option.some.inj hhead)
      | cons e es => exact h.not_crlf ⟨hd, hhead⟩

theorem oneLine_nil : OneLine [] := by simp [OneLine]

/-- A text between two lines, with neither half of a line end in it, makes one
line of them. -/
theorem OneLine.append {text middle rest : List Char} (h : OneLine text) (hne : middle ≠ [])
    (hcr : '\r' ∉ middle) (hlf : '\n' ∉ middle) (hrest : OneLine rest) :
    OneLine (text ++ middle ++ rest) := by
  induction middle generalizing text with
  | nil => exact absurd rfl hne
  | cons c cs ih =>
      obtain ⟨hc, hcs⟩ := List.ne_and_not_mem_of_not_mem_cons hcr
      obtain ⟨hc', hcs'⟩ := List.ne_and_not_mem_of_not_mem_cons hlf
      cases cs with
      | nil =>
          rw [List.append_assoc, List.singleton_append]
          exact h.append_cons hc.symm hc'.symm hrest
      | cons d ds =>
          have hstep := ih (h.append_cons hc.symm hc'.symm oneLine_nil) (List.cons_ne_nil d ds) hcs hcs'
          rwa [List.append_assoc text, List.singleton_append] at hstep

theorem oneLine_of_not_lf {line : List Char} (h : '\n' ∉ line) : OneLine line := by
  intro hin
  exact h (hin.subset (List.mem_cons_of_mem _ (List.mem_singleton_self _)))

theorem OneLine.of_infix {line part : List Char} (h : OneLine line) (hpart : part <:+: line) : OneLine part :=
  fun hin => h (hin.trans hpart)

theorem oneLine_of_mem_splitCrlf {text line : List Char} (h : line ∈ splitCrlf text) : OneLine line := by
  induction text using crlf_induction generalizing line with
  | nil => exact List.mem_singleton.mp h ▸ oneLine_nil
  | crlf rest ih =>
      rw [splitCrlf_of_crlf] at h
      rcases List.mem_cons.mp h with rfl | h
      · exact oneLine_nil
      · exact ih h
  | char c rest hc ih =>
      rw [splitCrlf_cons hc] at h
      rcases List.mem_cons.mp h with rfl | h
      · refine oneLine_cons (fun ⟨hcr, hhead⟩ => hc ⟨hcr, ?_⟩) (ih ?_)
        · obtain ⟨tail, htail⟩ := List.head?_eq_some_iff.mp hhead
          obtain ⟨more, hmore⟩ := firstLine_front rest
          rw [← hmore, htail]
          rfl
        · rw [splitCrlf_eq rest]
          exact List.mem_cons_self
      · exact ih (List.mem_of_mem_tail h)

end NixiSbc.CrlfLines
