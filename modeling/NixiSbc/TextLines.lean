import Mathlib.Data.List.DropRight
import NixiSbc.TextScan

namespace NixiSbc.TextLines

open TextScan

section Trim

variable {text : List Char}

theorem trimEnd_front (text : List Char) : trimEnd text <+: text :=
  List.rdropWhile_prefix isWhiteSpace text

theorem mem_of_mem_trim {c : Char} (h : c ∈ trim text) : c ∈ text :=
  (List.dropWhile_suffix _).subset ((trimEnd_front _).subset h)

/-- The text after its leading blanks keeps its first character when the last
ones are dropped too. -/
theorem trimStart_trim (text : List Char) : trimStart (trim text) = trim text := by
  rw [trimStart, List.dropWhile_eq_self_iff]
  intro hl
  have hlong : 0 < (trimStart text).length := Nat.lt_of_lt_of_le hl (trimEnd_front _).length_le
  have hhead : (trim text)[0] = (trimStart text)[0] := (trimEnd_front (trimStart text)).getElem hl
  rw [hhead]
  exact List.dropWhile_get_zero_not isWhiteSpace text hlong

theorem trim_trim (text : List Char) : trim (trim text) = trim text := by
  rw [trim, trimStart_trim]
  exact List.rdropWhile_idempotent isWhiteSpace (trimStart text)

/-- A text with no blank at either end is left as it is. -/
theorem trim_eq_self (hhead : ∀ c, text.head? = some c → isWhiteSpace c = false)
    (hlast : ∀ c, text.getLast? = some c → isWhiteSpace c = false) : trim text = text := by
  have hstart : trimStart text = text := by
    cases text with
    | nil => rfl
    | cons a rest =>
        rw [trimStart, List.dropWhile_cons_of_neg]
        rw [hhead a rfl]
        decide
  rw [trim, hstart]
  refine List.rdropWhile_eq_self_iff.mpr fun hne => ?_
  rw [hlast _ (List.getLast?_eq_some_getLast hne)]
  decide

end Trim

section Lines

variable {line rest : List Char}

theorem splitInclusive_append (h : '\n' ∉ line) :
    splitInclusive (line ++ '\n' :: rest) = (line ++ ['\n']) :: splitInclusive rest := by
  induction line with
  | nil => simp [splitInclusive]
  | cons c cs ih =>
      obtain ⟨hc, hcs⟩ := List.ne_and_not_mem_of_not_mem_cons h
      rw [List.cons_append, splitInclusive, if_neg hc.symm, ih hcs]
      rfl

theorem splitInclusive_last (hne : line ≠ []) (h : '\n' ∉ line) : splitInclusive line = [line] := by
  induction line with
  | nil => exact absurd rfl hne
  | cons c cs ih =>
      obtain ⟨hc, hcs⟩ := List.ne_and_not_mem_of_not_mem_cons h
      rw [splitInclusive, if_neg hc.symm]
      by_cases hlast : cs = []
      · rw [hlast]
        rfl
      · rw [ih hlast hcs]

theorem stripLineEnd_crlf (line : List Char) : stripLineEnd (line ++ ['\r', '\n']) = line := by
  rw [stripLineEnd, if_pos (List.suffix_append _ _)]
  simp

theorem stripLineEnd_of_not_mem (h : '\n' ∉ line) : stripLineEnd line = line := by
  rw [stripLineEnd, if_neg fun hs => h (hs.subset (by simp)), if_neg fun hs => h (hs.subset (by simp))]

theorem lines_append (h : '\n' ∉ line) : lines (line ++ '\r' :: '\n' :: rest) = line :: lines rest := by
  have hcr : '\n' ∉ line ++ ['\r'] := by simp [h]
  rw [List.append_cons, lines, splitInclusive_append hcr, List.map_cons, List.append_assoc]
  exact congrArg (· :: lines rest) (stripLineEnd_crlf line)

theorem lines_last (hne : line ≠ []) (h : '\n' ∉ line) : lines line = [line] := by
  rw [lines, splitInclusive_last hne h, List.map_singleton, stripLineEnd_of_not_mem h]

/-- Lines that are joined with line feeds are read back. -/
theorem lines_intercalate {ls : List (List Char)} (h : ∀ l ∈ ls, l ≠ [] ∧ '\n' ∉ l ∧ ¬['\r'] <:+ l) :
    lines (['\n'].intercalate ls) = ls := by
  induction ls with
  | nil => rfl
  | cons line ls ih =>
      obtain ⟨hne, hlf, hcr⟩ := h line List.mem_cons_self
      cases ls with
      | nil =>
          rw [List.intercalate_singleton]
          exact lines_last hne hlf
      | cons next ls =>
          have hstrip : stripLineEnd (line ++ ['\n']) = line := by
            have hnot : ¬['\r', '\n'] <:+ line ++ ['\n'] := by
              intro hsuffix
              have hsplit : ['\r', '\n'] = ['\r'] ++ ['\n'] := rfl
              rw [hsplit, List.suffix_append_self_iff] at hsuffix
              exact hcr hsuffix
            rw [stripLineEnd, if_neg hnot, if_pos (List.suffix_append _ _)]
            simp
          rw [List.intercalate_cons_cons, List.append_assoc, List.singleton_append, lines, splitInclusive_append hlf,
            List.map_cons, hstrip]
          exact congrArg (line :: ·) (ih fun l hl => h l (List.mem_cons_of_mem _ hl))

/-- A line feed can only be the last character of a piece. -/
theorem not_mem_dropLast_piece {text piece : List Char} (h : piece ∈ splitInclusive text) :
    '\n' ∉ piece.dropLast := by
  induction text generalizing piece with
  | nil => cases h
  | cons c cs ih =>
      rw [splitInclusive] at h
      split at h
      next =>
        rcases List.mem_cons.mp h with rfl | h
        · exact List.not_mem_nil
        · exact ih h
      next hc =>
        split at h
        next =>
          rw [List.mem_singleton.mp h]
          exact List.not_mem_nil
        next first more hsplit =>
          rcases List.mem_cons.mp h with rfl | h
          · intro hm
            have hfirst := ih (hsplit ▸ List.mem_cons_self)
            cases first with
            | nil => cases hm
            | cons d ds =>
                rw [List.dropLast_cons_cons] at hm
                exact (List.mem_cons.mp hm).elim (fun he => hc he.symm) hfirst
          · exact ih (hsplit ▸ List.mem_cons_of_mem _ h)

theorem stripLineEnd_not_mem {piece : List Char} (h : '\n' ∉ piece.dropLast) :
    '\n' ∉ stripLineEnd piece := by
  have htake (n : Nat) (hn : n < piece.length) : '\n' ∉ piece.take n := by
    intro hm
    have hle : piece.take n <+: piece.dropLast := by
      rw [List.dropLast_eq_take]
      exact List.take_prefix_take_left (by omega)
    exact h (hle.subset hm)
  rw [stripLineEnd]
  split
  next hs =>
    have := hs.length_le
    exact htake _ (by simp at this; omega)
  next =>
    split
    next hs =>
      have := hs.length_le
      exact htake _ (by simp at this; omega)
    next hlast =>
      intro hm
      have hne := List.ne_nil_of_mem hm
      rw [← List.dropLast_append_getLast hne] at hm
      rcases List.mem_append.mp hm with hm | hm
      · exact h hm
      · refine hlast ⟨piece.dropLast, ?_⟩
        rw [List.mem_singleton.mp hm]
        exact List.dropLast_append_getLast hne

theorem not_mem_of_mem_lines {text line : List Char} (h : line ∈ lines text) : '\n' ∉ line := by
  obtain ⟨piece, hpiece, rfl⟩ := List.mem_map.mp h
  exact stripLineEnd_not_mem (not_mem_dropLast_piece hpiece)

end Lines

/-- Lines with a line end between every two. -/
def joinLines (line : List Char) : List (List Char) → List Char
  | [] => line
  | next :: rest => line ++ '\r' :: '\n' :: joinLines next rest

theorem lines_joinLines {line : List Char} {rest : List (List Char)} (hline : '\n' ∉ line)
    (hrest : ∀ l ∈ rest, l ≠ [] ∧ '\n' ∉ l) : (lines (joinLines line rest)).drop 1 = rest := by
  induction rest generalizing line with
  | nil =>
      by_cases hne : line = []
      · rw [hne]
        rfl
      · rw [joinLines, lines_last hne hline]
        rfl
  | cons next rest ih =>
      obtain ⟨hne, hnext⟩ := hrest next List.mem_cons_self
      have hmore := ih hnext fun l hl => hrest l (List.mem_cons_of_mem _ hl)
      rw [joinLines, lines_append hline, List.drop_one, List.tail_cons]
      cases rest with
      | nil => rw [joinLines, lines_last hne hnext]
      | cons l ls =>
          rw [joinLines, lines_append hnext, List.drop_one, List.tail_cons] at hmore
          rw [joinLines, lines_append hnext, hmore]

/-- Behind its first line comes a carriage return, if anything. -/
theorem joinLines_append (line : List Char) (rest : List (List Char)) (tail : List Char) :
    ∃ more, joinLines line rest ++ '\r' :: tail = line ++ '\r' :: more := by
  cases rest with
  | nil => exact ⟨tail, rfl⟩
  | cons next rest =>
      refine ⟨'\n' :: joinLines next rest ++ '\r' :: tail, ?_⟩
      rw [joinLines, List.append_assoc]
      rfl

end NixiSbc.TextLines
