import Mathlib.Algebra.Group.Nat.Defs
import Mathlib.Data.List.Basic
import Mathlib.Data.List.Infix
import Mathlib.Data.List.TakeWhile
import Mathlib.Tactic.Common

namespace NixiSbc.TextScan

instance lawfulBEqText : LawfulBEq (List Char) := inferInstance

section Find

variable {α : Type} [DecidableEq α]

/-- The position of the first occurrence of a pattern. -/
def findSub (pattern : List α) : List α → Option Nat
  | [] => if pattern = [] then some 0 else none
  | a :: as => if pattern <+: a :: as then some 0 else (findSub pattern as).map (· + 1)

theorem findSub_eq_some {pattern text : List α} {k : Nat} (h : findSub pattern text = some k) :
    k ≤ text.length ∧ pattern <+: text.drop k ∧ ∀ j, j < k → ¬ pattern <+: text.drop j := by
  induction text generalizing k with
  | nil =>
      rw [findSub] at h
      split at h
      next hp =>
        cases h
        exact ⟨le_rfl, by simp [hp], fun j hj => absurd hj (Nat.not_lt_zero j)⟩
      next => cases h
  | cons a as ih =>
      rw [findSub] at h
      split at h
      next hp =>
        cases h
        exact ⟨Nat.zero_le _, hp, fun j hj => absurd hj (Nat.not_lt_zero j)⟩
      next hp =>
        obtain ⟨i, hi, rfl⟩ := Option.map_eq_some_iff.mp h
        obtain ⟨hle, hat, hbefore⟩ := ih hi
        refine ⟨Nat.succ_le_succ hle, hat, fun j hj => ?_⟩
        cases j with
        | zero => exact hp
        | succ j => exact hbefore j (Nat.lt_of_succ_lt_succ hj)

theorem findSub_of_first {pattern text : List α} {k : Nat} (hat : pattern <+: text.drop k)
    (hk : k ≤ text.length) (hbefore : ∀ j, j < k → ¬ pattern <+: text.drop j) :
    findSub pattern text = some k := by
  induction text generalizing k with
  | nil =>
      obtain rfl : k = 0 := Nat.le_zero.mp hk
      rw [findSub, if_pos (List.prefix_nil.mp hat)]
  | cons a as ih =>
      cases k with
      | zero =>
          rw [findSub]
          exact if_pos hat
      | succ k =>
          have hhead : ¬ pattern <+: a :: as := hbefore 0 (Nat.succ_pos k)
          rw [findSub, if_neg hhead,
            ih hat (Nat.le_of_succ_le_succ hk) fun j hj => hbefore (j + 1) (Nat.succ_lt_succ hj)]
          rfl

theorem findSub_of_absent {pattern text : List α} (hne : pattern ≠ [])
    (h : ∀ j, j < text.length → ¬ pattern <+: text.drop j) : findSub pattern text = none := by
  cases hf : findSub pattern text with
  | none => rfl
  | some k =>
      obtain ⟨hle, hat, -⟩ := findSub_eq_some hf
      rcases Nat.lt_or_eq_of_le hle with hlt | rfl
      · exact absurd hat (h k hlt)
      · rw [List.drop_length] at hat
        exact absurd (List.prefix_nil.mp hat) hne

end Find

/-- Pieces that end after each line feed; a last piece may have none. -/
def splitInclusive : List Char → List (List Char)
  | [] => []
  | c :: cs =>
      if c = '\n' then [c] :: splitInclusive cs
      else
        match splitInclusive cs with
        | [] => [[c]]
        | line :: rest => (c :: line) :: rest

/-- Drop a line feed, and a carriage return only in front of one. -/
def stripLineEnd (line : List Char) : List Char :=
  if ['\r', '\n'] <:+ line then line.take (line.length - 2)
  else if ['\n'] <:+ line then line.take (line.length - 1)
  else line

def lines (text : List Char) : List (List Char) := (splitInclusive text).map stripLineEnd

/-- The Unicode property `White_Space`. -/
def isWhiteSpace (c : Char) : Bool :=
  let n := c.toNat
  (9 ≤ n ∧ n ≤ 13) ∨ n = 0x20 ∨ n = 0x85 ∨ n = 0xA0 ∨ n = 0x1680 ∨ (0x2000 ≤ n ∧ n ≤ 0x200A) ∨
    n = 0x2028 ∨ n = 0x2029 ∨ n = 0x202F ∨ n = 0x205F ∨ n = 0x3000

def trimStart (text : List Char) : List Char := text.dropWhile isWhiteSpace

def trimEnd (text : List Char) : List Char := (text.reverse.dropWhile isWhiteSpace).reverse

def trim (text : List Char) : List Char := trimEnd (trimStart text)

theorem trimEnd_append_blank (text : List Char) {blank : List Char}
    (h : ∀ c ∈ blank, isWhiteSpace c = true) : trimEnd (text ++ blank) = trimEnd text := by
  rw [trimEnd, trimEnd, List.reverse_append,
    List.dropWhile_append_of_pos fun c hc => h c (List.mem_reverse.mp hc)]

theorem trimStart_append {text : List Char} (more : List Char) (h : trimStart text ≠ []) :
    trimStart (text ++ more) = trimStart text ++ more := by
  rw [trimStart] at h ⊢
  rw [List.dropWhile_append, if_neg (by simpa using h)]
  rfl

theorem trimEnd_append {more : List Char} (text : List Char) (h : trimEnd more ≠ []) :
    trimEnd (text ++ more) = text ++ trimEnd more := by
  have hne : more.reverse.dropWhile isWhiteSpace ≠ [] := fun he => h (by rw [trimEnd, he]; rfl)
  rw [trimEnd, List.reverse_append, List.dropWhile_append, if_neg (by simpa using hne),
    List.reverse_append, List.reverse_reverse]
  rfl

theorem trim_append_blank {text : List Char} {blank : List Char} (hne : trimStart text ≠ [])
    (h : ∀ c ∈ blank, isWhiteSpace c = true) : trim (text ++ blank) = trim text := by
  rw [trim, trim, trimStart_append blank hne, trimEnd_append_blank _ h]

theorem mem_dropWhile_of_neg {p : Char → Bool} {text : List Char} {c : Char} (hc : c ∈ text)
    (hp : p c = false) : c ∈ text.dropWhile p := by
  rw [← List.takeWhile_append_dropWhile (p := p) (l := text)] at hc
  rcases List.mem_append.mp hc with hc | hc
  · rw [List.mem_takeWhile_imp hc] at hp
    cases hp
  · exact hc

theorem mem_trimStart {text : List Char} {c : Char} (hc : c ∈ text) (hp : isWhiteSpace c = false) :
    c ∈ trimStart text :=
  mem_dropWhile_of_neg hc hp

theorem mem_trimEnd {text : List Char} {c : Char} (hc : c ∈ text) (hp : isWhiteSpace c = false) :
    c ∈ trimEnd text :=
  List.mem_reverse.mpr (mem_dropWhile_of_neg (List.mem_reverse.mpr hc) hp)

theorem mem_trim {text : List Char} {c : Char} (hc : c ∈ text) (hp : isWhiteSpace c = false) :
    c ∈ trim text :=
  mem_trimEnd (mem_trimStart hc hp) hp

theorem space_mem_trim {text more : List Char} {c : Char} (hne : trimStart text ≠ [])
    (hc : c ∈ more) (hp : isWhiteSpace c = false) : ' ' ∈ trim (text ++ ' ' :: more) := by
  have hmore : trimEnd more ≠ [] := List.ne_nil_of_mem (mem_trimEnd hc hp)
  rw [trim, trimStart_append _ hne, List.append_cons, trimEnd_append _ hmore]
  simp

def isDigit (c : Char) : Bool := '0' ≤ c ∧ c ≤ '9'

def decimal (digits : List Char) : Nat := digits.foldl (fun n c => n * 10 + (c.toNat - 48)) 0

def stripPlus : List Char → List Char
  | '+' :: rest => rest
  | text => text

/-- An unsigned decimal number of 64 bits, with an optional plus sign. -/
def parseUsize (text : List Char) : Option Nat :=
  let digits := stripPlus text
  if digits ≠ [] ∧ digits.all isDigit ∧ decimal digits < 2 ^ 64 then some (decimal digits) else none

theorem parseUsize_eq_none {text : List Char} {c : Char} (hc : c ∈ text) (hplus : c ≠ '+')
    (hdigit : isDigit c = false) : parseUsize text = none := by
  have hkeep : c ∈ stripPlus text := by
    rw [stripPlus.eq_def]
    split
    next rest => exact (List.mem_cons.mp hc).resolve_left hplus
    next => exact hc
  rw [parseUsize]
  apply if_neg
  rintro ⟨-, hall, -⟩
  rw [List.all_eq_true.mp hall c hkeep] at hdigit
  cases hdigit

theorem ne_nil_of_parseUsize {text : List Char} {n : Nat} (h : parseUsize text = some n) :
    text ≠ [] := by
  rintro rfl
  cases h

def toAsciiLowercase (text : List Char) : List Char := text.map Char.toLower

/-- The field between the first separator and the second. -/
def secondField (sep : Char) (text : List Char) : Option (List Char) :=
  match text.dropWhile (· ≠ sep) with
  | [] => none
  | _ :: rest => some (rest.takeWhile (· ≠ sep))

example : lines "a\r\nb\r\r\n\nc\r".toList = ["a".toList, "b\r".toList, [], "c\r".toList] := by decide
example : parseUsize (trim " +042\t".toList) = some 42 := by decide

end NixiSbc.TextScan
