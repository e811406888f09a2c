import NixiSbc.TextFields
import NixiSbc.TextLines

namespace NixiSbc.TextWords

open TextScan TextFields TextLines

/-- The words between white space. -/
def words (text : List Char) : List (List Char) := (text.splitOnP isWhiteSpace).filter (· ≠ [])

/-- An unsigned decimal number of so many bits, with an optional plus sign. -/
def parseUnsigned (bits : Nat) (text : List Char) : Option Nat :=
  let digits := stripPlus text
  if digits ≠ [] ∧ digits.all isDigit ∧ decimal digits < 2 ^ bits then some (decimal digits) else none

def IsWord (text : List Char) : Prop := text ≠ [] ∧ ∀ c ∈ text, isWhiteSpace c = false

theorem not_blank_of_all {text : List Char} (h : text.all (!isWhiteSpace ·) = true) :
    ∀ c ∈ text, isWhiteSpace c = false := by
  intro c hc
  simpa using List.all_eq_true.mp h c hc

theorem IsWord.not_lf {word : List Char} (h : IsWord word) : '\n' ∉ word := by
  intro hmem
  cases h.2 '\n' hmem

section Words

theorem not_of_mem_splitOnP {p : Char → Bool} {text piece : List Char} (h : piece ∈ text.splitOnP p) :
    ∀ c ∈ piece, p c = false := by
  induction text generalizing piece with
  | nil =>
      rw [List.splitOnP_nil, List.mem_singleton] at h
      rw [h]
      exact nofun
  | cons a rest ih =>
      rw [List.splitOnP_cons_eq_if_modifyHead] at h
      split at h
      next =>
        rcases List.mem_cons.mp h with rfl | h
        · exact nofun
        · exact ih h
      next hne =>
        cases hs : rest.splitOnP p with
        | nil => exact absurd hs (List.splitOnP_ne_nil p rest)
        | cons first more =>
            rw [hs, List.modifyHead_cons] at h
            have hfirst := ih (hs ▸ List.mem_cons_self : first ∈ rest.splitOnP p)
            rcases List.mem_cons.mp h with rfl | h
            · intro c hc
              rcases List.mem_cons.mp hc with rfl | hc
              · exact eq_false_of_ne_true hne
              · exact hfirst c hc
            · exact ih (hs ▸ List.mem_cons_of_mem _ h)

theorem isWord_of_mem_words {text word : List Char} (h : word ∈ words text) : IsWord word := by
  obtain ⟨hpiece, hne⟩ := List.mem_filter.mp h
  exact ⟨of_decide_eq_true hne, not_of_mem_splitOnP hpiece⟩

theorem trim_of_isWord {word : List Char} (h : IsWord word) : trim word = word :=
  trim_eq_self (fun c hc => h.2 c (List.mem_of_head? hc)) fun c hc => h.2 c (List.mem_of_getLast? hc)

theorem words_of_isWord {word : List Char} (h : IsWord word) : words word = [word] := by
  rw [words, List.splitOnP_eq_singleton h.2]
  simp [h.1]

theorem words_cons {word : List Char} (h : IsWord word) (rest : List Char) :
    words (word ++ ' ' :: rest) = word :: words rest := by
  rw [words, List.splitOnP_append_cons_of_forall_mem h.2 ' ' (by decide), words]
  simp [h.1]

/-- Words with a space before each but the first are read as they are. -/
theorem words_flatMap {word : List Char} (h : IsWord word) {more : List (List Char)}
    (hmore : ∀ w ∈ more, IsWord w) : words (word ++ more.flatMap (' ' :: ·)) = word :: more := by
  induction more generalizing word with
  | nil =>
      rw [List.flatMap_nil, List.append_nil]
      exact words_of_isWord h
  | cons next more ih =>
      rw [List.flatMap_cons, List.cons_append, words_cons h,
        ih (hmore next List.mem_cons_self) fun w hw => hmore w (List.mem_cons_of_mem _ hw)]

theorem words_append_blank {c : Char} (hc : isWhiteSpace c = true) (xs ys : List Char) :
    words (xs ++ c :: ys) = words xs ++ words ys := by
  rw [words, List.splitOnP_append_cons xs ys hc, List.filter_append, words, words]

theorem words_cons_blank {c : Char} (hc : isWhiteSpace c = true) (text : List Char) : words (c :: text) = words text :=
  words_append_blank hc [] text

theorem words_blank_append {blank : List Char} (h : ∀ c ∈ blank, isWhiteSpace c = true) (text : List Char) :
    words (blank ++ text) = words text := by
  induction blank with
  | nil => rfl
  | cons c blank ih =>
      rw [List.cons_append, words_cons_blank (h c List.mem_cons_self), ih fun d hd => h d (List.mem_cons_of_mem _ hd)]

theorem words_blank {blank : List Char} (h : ∀ c ∈ blank, isWhiteSpace c = true) : words blank = [] := by
  rw [← List.append_nil blank, words_blank_append h]
  rfl

theorem words_append_blanks {blank : List Char} (h : ∀ c ∈ blank, isWhiteSpace c = true) (text : List Char) :
    words (text ++ blank) = words text := by
  cases blank with
  | nil => rw [List.append_nil]
  | cons c blank =>
      rw [words_append_blank (h c List.mem_cons_self), words_blank fun d hd => h d (List.mem_cons_of_mem _ hd),
        List.append_nil]

theorem words_trimEnd (text : List Char) : words (trimEnd text) = words text := by
  have hblank : ∀ c ∈ text.rtakeWhile isWhiteSpace, isWhiteSpace c = true := fun c hc => List.mem_rtakeWhile_imp hc
  calc words (trimEnd text) = words (text.rdropWhile isWhiteSpace ++ text.rtakeWhile isWhiteSpace) :=
        (words_append_blanks hblank _).symm
    _ = words text := by rw [List.rdropWhile_append_rtakeWhile]

theorem words_trimStart (text : List Char) : words (trimStart text) = words text := by
  have hblank : ∀ c ∈ text.takeWhile isWhiteSpace, isWhiteSpace c = true := fun c hc => List.mem_takeWhile_imp hc
  rw [← words_blank_append hblank, trimStart, List.takeWhile_append_dropWhile]

theorem words_trim (text : List Char) : words (trim text) = words text := by
  rw [trim, words_trimEnd, words_trimStart]

theorem words_append_tail {word tail : List Char} (h : IsWord word)
    (htail : ∀ c, tail.head? = some c → isWhiteSpace c = true) : words (word ++ tail) = word :: words tail := by
  cases tail with
  | nil =>
      rw [List.append_nil, words_of_isWord h]
      rfl
  | cons c tail =>
      have hc := htail c rfl
      rw [words_append_blank hc, words_of_isWord h, words_cons_blank hc]
      rfl

/-- Where the first word of a text stands. -/
theorem words_eq_cons {text word : List Char} {rest : List (List Char)} (h : words text = word :: rest) :
    ∃ blank tail, text = blank ++ (word ++ tail) ∧ (∀ c ∈ blank, isWhiteSpace c = true) ∧
      (∀ c, tail.head? = some c → isWhiteSpace c = true) ∧ words tail = rest := by
  have hblank : ∀ c ∈ text.takeWhile isWhiteSpace, isWhiteSpace c = true := fun c hc => List.mem_takeWhile_imp hc
  have hsplit : text.takeWhile isWhiteSpace ++ trimStart text = text := List.takeWhile_append_dropWhile
  have hstart : ∀ c, (trimStart text).head? = some c → isWhiteSpace c = false := fun c hc => by
    have hfirst := List.head?_dropWhile_not isWhiteSpace text
    rw [← trimStart, hc] at hfirst
    exact hfirst
  rw [← words_trimStart] at h
  generalize trimStart text = front at *
  have hparts : front.takeWhile (!isWhiteSpace ·) ++ front.dropWhile (!isWhiteSpace ·) = front :=
    List.takeWhile_append_dropWhile
  have htail : ∀ c, (front.dropWhile (!isWhiteSpace ·)).head? = some c → isWhiteSpace c = true := fun c hc => by
    have hfirst := List.head?_dropWhile_not (!isWhiteSpace ·) front
    rw [hc] at hfirst
    simpa using hfirst
  have hword : IsWord (front.takeWhile (!isWhiteSpace ·)) := by
    refine ⟨?_, fun c hc => by simpa using List.mem_takeWhile_imp hc⟩
    cases front with
    | nil => cases h
    | cons c front =>
        rw [List.takeWhile_cons_of_pos (by rw [hstart c rfl]; rfl)]
        exact List.cons_ne_nil _ _
  rw [← hparts, words_append_tail hword htail] at h
  injection h with hfirst hrest
  exact ⟨_, _, by rw [← hfirst, hparts, hsplit], hblank, htail, hrest⟩

/-- The word that is read on its own is the first of the words. -/
theorem firstWord_eq (text : List Char) : firstWord text = (words text).head? := by
  have hparts : (trimStart text).takeWhile (fun c => !isWhiteSpace c) ++
      (trimStart text).dropWhile (fun c => !isWhiteSpace c) = trimStart text := List.takeWhile_append_dropWhile
  have hfirst := List.head?_dropWhile_not isWhiteSpace text
  rw [← trimStart] at hfirst
  rw [← words_trimStart, firstWord]
  cases hword : (trimStart text).takeWhile fun c => !isWhiteSpace c with
  | nil =>
      cases hfront : trimStart text with
      | nil => rfl
      | cons c rest =>
          rw [hfront] at hfirst hword
          rw [List.takeWhile_cons_of_pos (by simpa using hfirst)] at hword
          cases hword
  | cons d ds =>
      have hblank : IsWord (d :: ds) := by
        refine ⟨List.cons_ne_nil _ _, fun c hc => ?_⟩
        rw [← hword] at hc
        simpa using List.mem_takeWhile_imp hc
      rw [hword] at hparts
      rw [← hparts, words_append_tail hblank]
      · rfl
      · intro c hc
        have htail := List.head?_dropWhile_not (fun c => !isWhiteSpace c) (trimStart text)
        rw [hc] at htail
        simpa using htail

end Words

section Numbers

theorem isDigit_digitChar : ∀ d < 10, isDigit d.digitChar = true := by decide

theorem toNat_digitChar : ∀ d < 10, d.digitChar.toNat - 48 = d := by decide

theorem isDigit_of_mem_showNat {n : Nat} {c : Char} (h : c ∈ showNat n) : isDigit c = true := by
  induction n using Nat.strong_induction_on with
  | _ n ih =>
      rw [showNat, Nat.toDigits_eq_if (by decide)] at h
      split at h
      next hlt =>
        rw [List.mem_singleton.mp h]
        exact isDigit_digitChar n hlt
      next hle =>
        rcases List.mem_append.mp h with h | h
        · exact ih (n / 10) (Nat.div_lt_self (by omega) (by decide)) h
        · rw [List.mem_singleton.mp h]
          exact isDigit_digitChar _ (Nat.mod_lt n (by decide))

theorem decimal_showNat (n : Nat) : decimal (showNat n) = n := by
  induction n using Nat.strong_induction_on with
  | _ n ih =>
      rw [showNat, Nat.toDigits_eq_if (by decide)]
      split
      next hlt =>
        rw [decimal, List.foldl_cons, List.foldl_nil, toNat_digitChar n hlt]
        omega
      next hle =>
        have hrest := ih (n / 10) (Nat.div_lt_self (by omega) (by decide))
        rw [showNat, decimal] at hrest
        rw [decimal, List.foldl_append, hrest, List.foldl_cons, List.foldl_nil,
          toNat_digitChar _ (Nat.mod_lt n (by decide))]
        omega

theorem showNat_ne_nil (n : Nat) : showNat n ≠ [] := by
  rw [showNat, Nat.toDigits_eq_if (by decide)]
  split
  · exact List.cons_ne_nil _ _
  · exact List.append_ne_nil_of_right_ne_nil _ (List.cons_ne_nil _ _)

theorem isWord_showNat (n : Nat) : IsWord (showNat n) :=
  ⟨showNat_ne_nil n, fun _ hc => not_blank_of_mem_toDigits (by decide) hc⟩

theorem stripPlus_showNat (n : Nat) : stripPlus (showNat n) = showNat n := by
  rw [stripPlus]
  intro rest hplus
  have hdigit := isDigit_of_mem_showNat (n := n) (hplus ▸ List.mem_cons_self : '+' ∈ showNat n)
  cases hdigit

/-- A number is read as it was written. -/
theorem parseUnsigned_showNat {bits n : Nat} (h : n < 2 ^ bits) : parseUnsigned bits (showNat n) = some n := by
  rw [parseUnsigned, stripPlus_showNat, decimal_showNat, if_pos]
  exact ⟨showNat_ne_nil n, List.all_eq_true.mpr fun c hc => isDigit_of_mem_showNat hc, h⟩

theorem parseU32_showNat (n : UInt32) : parseU32 (showNat n.toNat) = some n := by
  rw [parseU32, stripPlus_showNat, decimal_showNat, if_pos, UInt32.ofNat_toNat]
  exact ⟨showNat_ne_nil _, List.all_eq_true.mpr fun c hc => isDigit_of_mem_showNat hc, n.toNat_lt⟩

end Numbers

section Lines

/-- Lines that end in CRLF each are read as they are. -/
theorem lines_flatMap {ls : List (List Char)} (h : ∀ l ∈ ls, '\n' ∉ l) :
    lines (ls.flatMap (· ++ ['\r', '\n'])) = ls := by
  induction ls with
  | nil => rfl
  | cons line ls ih =>
      rw [List.flatMap_cons, List.append_assoc]
      change lines (line ++ '\r' :: '\n' :: ls.flatMap _) = _
      rw [lines_append (h line List.mem_cons_self), ih fun l hl => h l (List.mem_cons_of_mem _ hl)]

end Lines

example : words " a\tb  c ".toList = [['a'], ['b'], ['c']] := by decide
example : parseUnsigned 8 "256".toList = none ∧ parseUnsigned 8 "+7".toList = some 7 := by decide

end NixiSbc.TextWords
