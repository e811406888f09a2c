import NixiSbc.TextScan

namespace NixiSbc.TextFields

open TextScan

/-- The pieces between the occurrences of CRLF. -/
def splitCrlf : List Char → List (List Char)
  | [] => [[]]
  | '\r' :: '\n' :: rest => [] :: splitCrlf rest
  | c :: rest =>
      match splitCrlf rest with
      | [] => [[c]]
      | line :: more => (c :: line) :: more

/-- The texts before and after the first separator. -/
def splitOnce (sep : Char) (text : List Char) : Option (List Char × List Char) :=
  if sep ∈ text then some (text.takeWhile (· ≠ sep), (text.dropWhile (· ≠ sep)).drop 1) else none

/-- The first of the words between white space. -/
def firstWord (text : List Char) : Option (List Char) :=
  match (trimStart text).takeWhile fun c => !isWhiteSpace c with
  | [] => none
  | word => some word

/-- An unsigned decimal number of 32 bits, with an optional plus sign. -/
def parseU32 (text : List Char) : Option UInt32 :=
  let digits := stripPlus text
  if digits ≠ [] ∧ digits.all isDigit ∧ decimal digits < 2 ^ 32 then
    some (UInt32.ofNat (decimal digits))
  else none

def showNat (n : Nat) : List Char := Nat.toDigits 10 n

/-- The text after a pattern that it starts with. -/
def stripPrefix (pattern text : List Char) : Option (List Char) :=
  if pattern <+: text then some (text.drop pattern.length) else none

/-- Without the occurrences of a character at both ends. -/
def trimMatches (c : Char) (text : List Char) : List Char :=
  ((text.dropWhile (· = c)).reverse.dropWhile (· = c)).reverse

/-- In base sixteen with small letters, filled up with zeros. -/
def showHex (width n : Nat) : List Char := List.leftpad width '0' (Nat.toDigits 16 n)

/-- What a hexadecimal digit stands for. -/
def hexDigit? (c : Char) : Option Nat :=
  if '0' ≤ c ∧ c ≤ '9' then some (c.toNat - 48)
  else if 'a' ≤ c ∧ c ≤ 'f' then some (c.toNat - 87)
  else if 'A' ≤ c ∧ c ≤ 'F' then some (c.toNat - 55)
  else none

def hexadecimal (digits : List Char) : Nat := digits.foldl (fun n c => n * 16 + (hexDigit? c).getD 0) 0

/-- An unsigned hexadecimal number of 32 bits, with an optional plus sign. -/
def parseHexU32 (text : List Char) : Option UInt32 :=
  let digits := stripPlus text
  if digits ≠ [] ∧ (digits.all fun c => (hexDigit? c).isSome) ∧ hexadecimal digits < 2 ^ 32 then
    some (UInt32.ofNat (hexadecimal digits))
  else none

theorem mem_toDigits {base n : Nat} (hbase : 1 < base) {c : Char} (h : c ∈ Nat.toDigits base n) :
    ∃ d : Nat, c = d.digitChar := by
  induction n using Nat.strong_induction_on with
  | _ n ih =>
      rw [Nat.toDigits_eq_if hbase] at h
      split at h
      next => exact ⟨n, List.mem_singleton.mp h⟩
      next hle =>
        rcases List.mem_append.mp h with h | h
        · exact ih (n / base) (Nat.div_lt_self (by omega) hbase) h
        · exact ⟨n % base, List.mem_singleton.mp h⟩

theorem mem_showHex {width n : Nat} {c : Char} (h : c ∈ showHex width n) : ∃ d : Nat, c = d.digitChar := by
  rw [showHex, List.leftpad] at h
  rcases List.mem_append.mp h with h | h
  · exact ⟨0, (List.mem_replicate.mp h).2⟩
  · exact mem_toDigits (by decide) h

theorem showHex_ne_nil {width : Nat} (hwidth : 0 < width) (n : Nat) : showHex width n ≠ [] := by
  rw [← List.length_pos_iff, showHex, List.length_leftpad]
  exact Nat.lt_of_lt_of_le hwidth (Nat.le_max_left _ _)

theorem stripPrefix_append (pattern text : List Char) : stripPrefix pattern (pattern ++ text) = some text := by
  rw [stripPrefix, if_pos (List.prefix_append pattern text), List.drop_left]

theorem eq_of_stripPrefix {pattern text rest : List Char} (h : stripPrefix pattern text = some rest) :
    text = pattern ++ rest := by
  rw [stripPrefix] at h
  split at h
  next hpat =>
    obtain ⟨more, rfl⟩ := hpat
    rw [List.drop_left, Option.some.injEq] at h
    rw [h]
  next => cases h

theorem splitOnce_append {sep : Char} {front : List Char} (h : sep ∉ front) (rest : List Char) :
    splitOnce sep (front ++ sep :: rest) = some (front, rest) := by
  have hfront : ∀ c ∈ front, decide (c ≠ sep) = true := fun c hc =>
    decide_eq_true fun heq => h (heq ▸ hc)
  rw [splitOnce, if_pos (List.mem_append_right _ List.mem_cons_self),
    List.takeWhile_append_of_pos hfront, List.dropWhile_append_of_pos hfront]
  simp

theorem eq_of_splitOnce {sep : Char} {text front rest : List Char}
    (h : splitOnce sep text = some (front, rest)) : text = front ++ sep :: rest := by
  rw [splitOnce] at h
  split at h
  next hmem =>
    cases h
    induction text with
    | nil => cases hmem
    | cons c text ih =>
        by_cases hc : c = sep
        · simp [hc]
        · have hmem' : sep ∈ text := (List.mem_cons.mp hmem).resolve_left (Ne.symm hc)
          simpa [hc] using ih hmem'
  next => cases h

theorem mem_of_splitOnce {sep : Char} {text : List Char} {p : List Char × List Char}
    (h : splitOnce sep text = some p) {c : Char} (hc : c ∈ p.2) : c ∈ text := by
  rw [splitOnce] at h
  split at h
  next =>
    cases h
    exact (List.dropWhile_suffix _).subset (List.mem_of_mem_drop hc)
  next => cases h

theorem mem_of_mem_trimMatches {c d : Char} {text : List Char} (h : c ∈ trimMatches d text) : c ∈ text := by
  rw [trimMatches, List.mem_reverse] at h
  exact (List.dropWhile_suffix _).subset (List.mem_reverse.mp ((List.dropWhile_suffix _).subset h))

/-- The quotes around a text without quotes come off. -/
theorem trimMatches_wrapped {c : Char} {text : List Char} (h : c ∉ text) :
    trimMatches c (c :: text ++ [c]) = text := by
  have hback : (text.reverse).dropWhile (fun x => decide (x = c)) = text.reverse := by
    rw [List.dropWhile_eq_self_iff]
    intro hl hlast
    exact h (List.mem_reverse.mp (of_decide_eq_true hlast ▸ List.getElem_mem hl))
  cases text with
  | nil => simp [trimMatches]
  | cons a rest =>
      have ha : a ≠ c := fun heq => h (heq ▸ List.mem_cons_self)
      have hfront : (c :: (a :: rest) ++ [c]).dropWhile (fun x => decide (x = c)) = a :: rest ++ [c] := by
        simp [ha]
      have hend : ((a :: rest ++ [c]).reverse).dropWhile (fun x => decide (x = c)) =
          (a :: rest).reverse := by
        rw [List.reverse_append, List.reverse_singleton, List.singleton_append, List.dropWhile_cons_of_pos
          (by simp), hback]
      rw [trimMatches, hfront, hend, List.reverse_reverse]

theorem not_mem_of_mem_splitOn {sep : Char} {text piece : List Char} (h : piece ∈ text.splitOn sep) :
    sep ∉ piece := by
  induction text generalizing piece with
  | nil =>
      rw [List.splitOn_nil, List.mem_singleton] at h
      rw [h]
      exact List.not_mem_nil
  | cons c rest ih =>
      rw [List.splitOn_cons_eq_if_modifyHead] at h
      split at h
      next =>
        rcases List.mem_cons.mp h with rfl | h
        · exact List.not_mem_nil
        · exact ih h
      next hne =>
        cases hs : rest.splitOn sep with
        | nil => exact absurd hs (List.splitOn_ne_nil sep rest)
        | cons first more =>
            rw [hs, List.modifyHead_cons] at h
            have hfirst : sep ∉ first := ih (hs ▸ List.mem_cons_self)
            rcases List.mem_cons.mp h with rfl | h
            · exact List.not_mem_cons_of_ne_of_not_mem (fun heq => hne (by simp [heq])) hfirst
            · exact ih (hs ▸ List.mem_cons_of_mem _ h)

theorem mem_intercalate {sep : List Char} {parts : List (List Char)} {c : Char}
    (h : c ∈ sep.intercalate parts) : c ∈ sep ∨ ∃ part ∈ parts, c ∈ part := by
  induction parts with
  | nil => cases h
  | cons part parts ih =>
      cases parts with
      | nil =>
          rw [List.intercalate_singleton] at h
          exact .inr ⟨part, List.mem_singleton_self part, h⟩
      | cons next parts =>
          rw [List.intercalate_cons_cons, List.mem_append, List.mem_append] at h
          rcases h with (h | h) | h
          · exact .inr ⟨part, List.mem_cons_self, h⟩
          · exact .inl h
          · rcases ih h with hsep | ⟨part', hpart', hc⟩
            · exact .inl hsep
            · exact .inr ⟨part', List.mem_cons_of_mem _ hpart', hc⟩

theorem isWhiteSpace_digitChar : ∀ d : Nat, isWhiteSpace d.digitChar = false
  | 0 | 1 | 2 | 3 | 4 | 5 | 6 | 7 | 8 | 9 | 10 | 11 | 12 | 13 | 14 | 15 => by decide
  | _ + 16 => by simp [Nat.digitChar, isWhiteSpace]

theorem not_blank_of_mem_toDigits {base n : Nat} (hbase : 1 < base) {c : Char}
    (h : c ∈ Nat.toDigits base n) : isWhiteSpace c = false := by
  obtain ⟨d, rfl⟩ := mem_toDigits hbase h
  exact isWhiteSpace_digitChar d

theorem not_mem_showNat (n : Nat) : '\n' ∉ showNat n := by
  intro h
  cases not_blank_of_mem_toDigits (by decide) h

/-- Upper-casing of a character outside ASCII, which the tables of the standard
library decide. -/
abbrev Uppering := Char → List Char

def toUppercase (V : Uppering) (text : List Char) : List Char :=
  text.flatMap fun c => if c.toNat < 128 then [c.toUpper] else V c

/-- Upper-casing moves the small letters, none of which becomes a line feed. -/
theorem toUpper_ne_lf {c : Char} (h : c ≠ '\n') : c.toUpper ≠ '\n' := by
  delta Char.toUpper
  split
  next hlower =>
    intro hup
    have hshift : 'A'.val - 'a'.val = 4294967264 := rfl
    have hlf : '\n'.val = 10 := rfl
    have hval := congrArg Char.val hup
    dsimp only at hval
    rw [hshift, hlf] at hval
    have hsum := congrArg UInt32.toNat hval
    simp only [UInt32.toNat_add, UInt32.reduceToNat] at hsum
    have hge : 97 ≤ c.val.toNat := UInt32.le_iff_toNat_le.mp hlower.1
    have hle : c.val.toNat ≤ 122 := UInt32.le_iff_toNat_le.mp hlower.2
    omega
  next => exact h

theorem not_mem_toUppercase {V : Uppering} (hV : ∀ c, 128 ≤ c.toNat → '\n' ∉ V c) {text : List Char}
    (h : '\n' ∉ text) : '\n' ∉ toUppercase V text := by
  rw [toUppercase, List.mem_flatMap]
  rintro ⟨c, hc, hm⟩
  split at hm
  next =>
    have hne : c ≠ '\n' := fun he => h (he ▸ hc)
    exact toUpper_ne_lf hne (List.mem_singleton.mp hm).symm
  next hascii => exact hV c (Nat.le_of_not_lt hascii) hm

example : splitCrlf "a\r\n\r\nb\rc\r\n".toList = ["a".toList, [], "b\rc".toList, []] := by decide
example : (firstWord " 42 INVITE".toList).bind parseU32 = some 42 := by decide

end NixiSbc.TextFields
