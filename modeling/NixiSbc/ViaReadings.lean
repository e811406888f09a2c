import NixiSbc.RefreshFlight
import NixiSbc.TextSearch

namespace NixiSbc.ViaReadings

open TextScan TextFields TextLines TextSearch RawSip SipBuilder
open BuiltRequests (endsBranch)
open CredentialLines (headerLines forall_ascii toLower_ascii)
open RefreshFlight (branchParam)

section Reading

variable {f : Char → Char} {value : List Char}

/-- The branch at a place of a value. -/
def branchAt (value : List Char) (pos : Nat) : Option (List Char) :=
  match trim ((value.drop (pos + branchText.length)).takeWhile fun c => !endsBranch c) with
  | [] => none
  | branch => some branch

/-- The place is sought in the value as a function changes it. -/
def place (f : Char → Char) (value : List Char) : Option Nat := findSub branchText (value.map f)

def readBranch (f : Char → Char) (value : List Char) : Option (List Char) :=
  (place f value).bind (branchAt value)

/-- A raw line is read as it stands. -/
theorem branchOf_eq (value : List Char) : branchOf value = readBranch id value := by
  unfold branchOf readBranch place
  rw [List.map_id]
  cases findSub branchText value <;> rfl

/-- The value of a header is read without regard to case. -/
theorem branchParam_eq (value : List Char) : branchParam value = readBranch Char.toLower value := by
  unfold branchParam readBranch place
  rw [show toAsciiLowercase value = value.map Char.toLower from rfl]
  cases findSub branchText (value.map Char.toLower) <;> rfl

/-- What ends a branch is no part of its name. -/
def KeepsEnds (f : Char → Char) : Prop := ∀ c, endsBranch c = true → f c ∉ branchText

theorem not_mem_branchText {c : Char} (h : endsBranch c = true) : c ∉ branchText := by
  have hall : branchText.all (fun c => !endsBranch c) = true := by decide
  intro hc
  have hno := List.all_eq_true.mp hall c hc
  rw [h] at hno
  cases hno

theorem keepsEnds_id : KeepsEnds id := fun _ h => not_mem_branchText h

theorem keepsEnds_toLower : KeepsEnds Char.toLower := by
  intro c hends hc
  have hascii : c.toLower.toNat < 128 := by
    have hall : branchText.all (·.toNat < 128) = true := by decide
    exact of_decide_eq_true (List.all_eq_true.mp hall _ hc)
  have hsmall : c.toLower ∈ branchText → endsBranch c = false :=
    forall_ascii (p := fun c => c.toLower ∈ branchText → endsBranch c = false) (by decide)
      (toLower_ascii hascii)
  rw [hsmall hc] at hends
  cases hends

theorem branchAt_append {pos : Nat} (h : pos + branchText.length ≤ value.length) {tail : List Char}
    (htail : ∀ c, tail.head? = some c → endsBranch c = true) :
    branchAt (value ++ tail) pos = branchAt value pos := by
  have hword : (((value ++ tail).drop (pos + branchText.length)).takeWhile fun c => !endsBranch c) =
      (value.drop (pos + branchText.length)).takeWhile fun c => !endsBranch c := by
    rw [List.drop_append_of_le_length h, List.takeWhile_append]
    split
    next hall =>
      have hnil : tail.takeWhile (fun c => !endsBranch c) = [] := by
        cases tail with
        | nil => rfl
        | cons c rest => rw [List.takeWhile_cons_of_neg]; simp [htail c rfl]
      rw [hnil, List.append_nil]
      exact ((List.takeWhile_prefix _).eq_of_length hall).symm
    next => rfl
  rw [branchAt, hword]
  rfl

theorem branchAt_front (front : List Char) (pos : Nat) :
    branchAt (front ++ value) (pos + front.length) = branchAt value pos := by
  have hdrop : (front ++ value).drop (pos + front.length + branchText.length) =
      value.drop (pos + branchText.length) := by
    rw [Nat.add_right_comm, Nat.add_comm _ front.length, List.drop_length_add_append]
  rw [branchAt, hdrop]
  rfl

theorem place_fits {pos : Nat} (h : place f value = some pos) : pos + branchText.length ≤ value.length := by
  have hfits := findSub_fits h
  rwa [List.length_map] at hfits

/-- The blanks around a value do not matter to the branch in it. -/
theorem readBranch_trim (hf : KeepsEnds f) (value : List Char) : readBranch f (trim value) = readBranch f value := by
  obtain ⟨front, back, hfront, hback, hparts⟩ := trim_parts value
  have hblank {text : List Char} (h : ∀ c ∈ text, isWhiteSpace c = true) : ∀ x ∈ text.map f, x ∉ branchText := by
    intro x hx
    obtain ⟨c, hc, rfl⟩ := List.mem_map.mp hx
    exact hf c (decide_eq_true (.inr (.inr (h c hc))))
  have hplace : place f value = (place f (trim value)).map (· + front.length) := by
    have hmap := congrArg (List.map f) hparts
    rw [List.map_append, List.map_append] at hmap
    rw [place, hmap, findSub_front branchText_ne_nil (hblank hfront), findSub_back branchText_ne_nil _ (hblank hback),
      List.length_map]
    rfl
  rw [readBranch, readBranch, hplace]
  cases hpos : place f (trim value) with
  | none => rfl
  | some pos =>
      have htail : ∀ c, back.head? = some c → endsBranch c = true := fun c hc =>
        decide_eq_true (.inr (.inr (hback c (List.mem_of_mem_head? hc))))
      have hat : branchAt value (pos + front.length) = branchAt (front ++ (trim value ++ back)) (pos + front.length) :=
        congrArg (branchAt · _) hparts
      rw [Option.map_some, Option.bind_some, Option.bind_some, hat, branchAt_front,
        branchAt_append (place_fits hpos) htail]

end Reading

section Headers

/-- A header: its own line and the lines folded into it. -/
structure Header where
  line : List Char
  folds : List (List Char)
  deriving DecidableEq

def Header.unfolded (h : Header) : List Char := h.line ++ h.folds.flatMap fun l => ' ' :: trim l

/-- The headers of a block of lines; folded lines with nothing before them belong to none. -/
def headersOf : List (List Char) → List Header
  | [] => []
  | line :: rest =>
      if isFolded line then headersOf rest
      else ⟨line, rest.takeWhile isFolded⟩ :: headersOf rest

/-- These are the headers of a parsed message. -/
theorem collectHeaders_headersOf {ls : List (List Char)} (h : ∀ l ∈ ls, l ≠ []) (current : Option (List Char)) :
    collectHeaders current ls =
      (current.map fun front => front ++ (ls.takeWhile isFolded).flatMap fun l => ' ' :: trim l).toList ++
        (headersOf ls).map Header.unfolded := by
  induction ls generalizing current with
  | nil => cases current <;> simp [collectHeaders, headersOf]
  | cons line rest ih =>
      have hrest : ∀ l ∈ rest, l ≠ [] := fun l hl => h l (List.mem_cons_of_mem line hl)
      rw [collectHeaders, headersOf]
      by_cases hfold : isFolded line = true
      · rw [if_pos hfold, if_pos hfold, ih hrest, List.takeWhile_cons_of_pos hfold]
        cases current <;> simp
      · rw [if_neg hfold, if_neg hfold, if_neg (h line List.mem_cons_self), ih hrest,
          List.takeWhile_cons_of_neg hfold]
        cases current <;> simp [Header.unfolded]

variable (U : Lowering)

def namesVia (line : List Char) : Bool := hasName U "via".toList line

def afterColon (line : List Char) : List Char := (line.dropWhile (· ≠ ':')).drop 1

/-- The top Via header of a raw message. -/
def topVia (raw : List Char) : Option Header := (headersOf (headerLines raw)).find? fun h => namesVia U h.unfolded

/-- The value of a Via header, as a peer echoes it. -/
def Header.value (h : Header) : List Char := headerValue h.unfolded

variable {U}

/-- It is the first of the Via values that the parser of whole messages finds in these lines. -/
theorem topVia_value (raw : List Char) :
    (((collectHeaders none (headerLines raw)).filter (hasName U "via".toList)).map headerValue).head? =
      (topVia U raw).map Header.value := by
  have hne : ∀ l ∈ headerLines raw, l ≠ [] := by
    intro l hl
    have hmem : l ∈ ((splitCrlf raw).drop 1).takeWhile (· ≠ []) := hl
    simpa using List.mem_takeWhile_imp hmem
  have hheaders := collectHeaders_headersOf hne none
  rw [Option.map_none, Option.toList_none, List.nil_append] at hheaders
  rw [hheaders, List.head?_map, List.head?_filter, List.find?_map, Option.map_map]
  rfl

theorem namesVia_iff {line : List Char} : namesVia U line = true ↔
    ':' ∈ line ∧ (toLowercase U (trim (line.takeWhile (· ≠ ':'))) = "via".toList ∨
      toLowercase U (trim (line.takeWhile (· ≠ ':'))) = "v".toList) := by
  have hname : toLowercase U "via".toList = "via".toList := rfl
  have hshort (name : List Char) : shortForm name = "via".toList ↔ name = "via".toList ∨ name = "v".toList := by
    constructor
    · intro h
      by_contra hno
      obtain ⟨hlong, hcompact⟩ := not_or.mp hno
      rw [shortForm, if_neg hcompact] at h
      split_ifs at h
      all_goals first | exact hlong h | exact absurd h (by decide)
    · rintro (rfl | rfl) <;> rfl
  rw [namesVia, hasName, hname, decide_eq_true_iff, hshort]
  tauto

/-- The first line that names a Via, folded or not, has the branch of a raw message. -/
theorem topViaBranch_eq (raw : List Char) :
    topViaBranch U raw = ((headerLines raw).find? (namesVia U)).bind fun l => branchOf (afterColon l) := by
  rw [topViaBranch, headerLines]
  induction (splitCrlf raw).drop 1 with
  | nil => rfl
  | cons line rest ih =>
      rw [viaBranchIn]
      by_cases hempty : line = []
      · rw [if_pos hempty, List.takeWhile_cons_of_neg (by simpa using hempty)]
        rfl
      · rw [if_neg hempty, List.takeWhile_cons_of_pos (by simpa using hempty), List.find?_cons]
        by_cases hcolon : ':' ∈ line
        · rw [splitOnce, if_pos hcolon]
          dsimp only
          by_cases hname : namesVia U line = true
          · rw [if_pos (namesVia_iff.mp hname).2, hname]
            rfl
          · rw [if_neg fun h => hname (namesVia_iff.mpr ⟨hcolon, h⟩), Bool.eq_false_of_not_eq_true hname]
            exact ih
        · have hname : namesVia U line = false :=
            Bool.eq_false_of_not_eq_true fun h => hcolon (namesVia_iff.mp h).1
          rw [splitOnce, if_neg hcolon, hname]
          exact ih

theorem colon_parts {name : List Char} (h : ':' ∉ name) (rest : List Char) :
    (name ++ ':' :: rest).takeWhile (· ≠ ':') = name ∧ afterColon (name ++ ':' :: rest) = rest := by
  have hsplit := splitOnce_append h rest
  rw [splitOnce, if_pos (List.mem_append_right name List.mem_cons_self)] at hsplit
  exact Prod.mk.inj (Option.some.inj hsplit)

theorem exists_colon_parts {line : List Char} (h : ':' ∈ line) :
    ∃ name rest, ':' ∉ name ∧ line = name ++ ':' :: rest := by
  have hsplit : splitOnce ':' line = some (line.takeWhile (· ≠ ':'), afterColon line) := if_pos h
  exact ⟨_, _, not_mem_takeWhile_ne ':' line, eq_of_splitOnce hsplit⟩

/-- The folded lines come after the value on the header's own line. -/
theorem unfolded_colon {h : Header} (hcolon : ':' ∈ h.line) :
    h.unfolded.takeWhile (· ≠ ':') = h.line.takeWhile (· ≠ ':') ∧
      afterColon h.unfolded = afterColon h.line ++ h.folds.flatMap fun l => ' ' :: trim l := by
  obtain ⟨name, rest, hno, hline⟩ := exists_colon_parts hcolon
  rw [Header.unfolded, hline, List.append_assoc, List.cons_append, (colon_parts hno _).1, (colon_parts hno _).2,
    (colon_parts hno _).1, (colon_parts hno _).2]
  exact ⟨rfl, rfl⟩

theorem namesVia_unfolded {h : Header} (hcolon : ':' ∈ h.line) : namesVia U h.unfolded = namesVia U h.line := by
  have hmem : ':' ∈ h.unfolded := List.mem_append_left _ hcolon
  rw [Bool.eq_iff_iff, namesVia_iff, namesVia_iff, (unfolded_colon hcolon).1]
  exact and_congr_left' (iff_of_true hmem hcolon)

/-- A line that names a Via and is not folded is the own line of the top Via header. -/
theorem line_of_find {ls : List (List Char)} {h : Header}
    (hvia : (headersOf ls).find? (fun h => namesVia U h.unfolded) = some h) (hcolon : ':' ∈ h.line) {line : List Char}
    (hfind : ls.find? (namesVia U) = some line) (hown : isFolded line = false) : line = h.line := by
  induction ls with
  | nil => cases hfind
  | cons first rest ih =>
      rw [headersOf] at hvia
      rw [List.find?_cons] at hfind
      by_cases hname : namesVia U first = true
      · rw [hname] at hfind
        cases hfind
        have hmem : ':' ∈ line := (namesVia_iff.mp hname).1
        rw [if_neg (by rw [hown]; exact Bool.false_ne_true), List.find?_cons_of_pos] at hvia
        · exact congrArg Header.line (Option.some.inj hvia)
        · rwa [namesVia_unfolded hmem]
      · rw [Bool.eq_false_of_not_eq_true hname] at hfind
        split at hvia
        next => exact ih hvia hfind
        next hfold =>
          rw [List.find?_cons] at hvia
          split at hvia
          next hfirst =>
            cases hvia
            rw [namesVia_unfolded hcolon] at hfirst
            exact absurd hfirst hname
          next => exact ih hvia hfind

/-- The first line that names a Via, folded or not, is the own line of the top Via header. -/
def OwnLineFirst (U : Lowering) (raw : List Char) (h : Header) : Prop :=
  (headerLines raw).find? (namesVia U) = some h.line

/-- The first branch of the value in any case, if there is one, is in small letters on the header's own line. -/
def Spelled (h : Header) : Prop := place Char.toLower (afterColon h.unfolded) = place id (afterColon h.line)

/-- Two places that could be read for the branch do not hold the same text. -/
structure Telling (U : Lowering) (raw : List Char) (h : Header) : Prop where
  colon : ':' ∈ h.line
  named : branchParam h.value ≠ none
  lone : ∀ j, branchText <+: ((afterColon h.unfolded).map Char.toLower).drop j →
    place Char.toLower (afterColon h.unfolded) = some j
  folded : ∀ l ∈ headerLines raw, isFolded l = true → namesVia U l = true →
    branchOf (afterColon l) ≠ branchParam h.value

theorem branchParam_value (h : Header) : branchParam h.value = readBranch Char.toLower (afterColon h.unfolded) := by
  rw [branchParam_eq]
  exact readBranch_trim keepsEnds_toLower _

theorem fold_head (h : Header) (c : Char)
    (hc : (h.folds.flatMap fun l => ' ' :: trim l).head? = some c) : endsBranch c = true := by
  cases hfolds : h.folds with
  | nil => rw [hfolds] at hc; cases hc
  | cons l ls =>
      rw [hfolds] at hc
      cases hc
      decide

/-- Where both readers look at one place they find one branch. -/
theorem branchOf_eq_of_spelled {h : Header} (hcolon : ':' ∈ h.line) (hspelled : Spelled h) :
    branchOf (afterColon h.line) = branchParam h.value := by
  rw [branchParam_value, branchOf_eq, readBranch, readBranch, hspelled]
  cases hplace : place id (afterColon h.line) with
  | none => rfl
  | some pos =>
      rw [Option.bind_some, Option.bind_some, (unfolded_colon hcolon).2, branchAt_append (place_fits hplace) (fold_head h)]

/-- A lower-case branch of the own line is one of the value in any case. -/
theorem spelled_of_lone {h : Header} (hcolon : ':' ∈ h.line)
    (hlone : ∀ j, branchText <+: ((afterColon h.unfolded).map Char.toLower).drop j →
      place Char.toLower (afterColon h.unfolded) = some j)
    (hsome : branchOf (afterColon h.line) ≠ none) : Spelled h := by
  cases hplace : place id (afterColon h.line) with
  | none =>
      rw [branchOf_eq, readBranch, hplace] at hsome
      exact absurd rfl hsome
  | some pos =>
      obtain ⟨-, hat, -⟩ := findSub_eq_some hplace
      rw [List.map_id] at hat
      have hlower : branchText <+: ((afterColon h.line).map Char.toLower).drop pos := by
        rw [← List.map_drop]
        exact hat.map Char.toLower
      rw [Spelled, hplace]
      refine hlone pos ?_
      rw [(unfolded_colon hcolon).2, List.map_append, List.drop_append_of_le_length]
      · exact hlower.trans (List.prefix_append _ _)
      · rw [List.length_map]
        exact (Nat.le_add_right _ _).trans (place_fits hplace)

/-- A sent request is keyed under the branch that its response is looked up by when the first line that
names a Via is the own line of the top Via header and the first branch in its value is spelled in small
letters there; and, but for two places with one text, only then. -/
theorem via_readings_agree_iff (U : Lowering) (raw : List Char) (h : Header) (hvia : topVia U raw = some h) :
    (OwnLineFirst U raw h ∧ Spelled h → topViaBranch U raw = branchParam h.value) ∧
      (Telling U raw h →
        (topViaBranch U raw = branchParam h.value ↔ OwnLineFirst U raw h ∧ Spelled h)) := by
  have hagree : OwnLineFirst U raw h ∧ Spelled h → topViaBranch U raw = branchParam h.value := by
    rintro ⟨hfirst, hspelled⟩
    have hcolon : ':' ∈ h.line := (namesVia_iff.mp (List.find?_some hfirst)).1
    rw [topViaBranch_eq, hfirst]
    exact branchOf_eq_of_spelled hcolon hspelled
  refine ⟨hagree, fun htell => ⟨fun hsame => ?_, hagree⟩⟩
  rw [topViaBranch_eq] at hsame
  cases hfind : (headerLines raw).find? (namesVia U) with
  | none =>
      rw [hfind] at hsame
      exact absurd hsame.symm htell.named
  | some line =>
      rw [hfind, Option.bind_some] at hsame
      have hown : isFolded line = false := Bool.eq_false_of_not_eq_true fun hfold =>
        htell.folded line (List.mem_of_find?_eq_some hfind) hfold (List.find?_some hfind) hsame
      obtain rfl := line_of_find hvia htell.colon hfind hown
      have hsome : branchOf (afterColon h.line) ≠ none := hsame ▸ htell.named
      exact ⟨hfind, spelled_of_lone htell.colon htell.lone hsome⟩

-- the texts are spelled out first: the kernel is slow at taking them apart
set_option maxRecDepth 2000 in
/-- A Via with two values and a folded line. -/
theorem via_readings_agree_invite :
    let raw := ("INVITE sip:b@h SIP/2.0\r\nSubject: a\r\n b\r\nv : SIP/2.0/UDP a:5060;rport;branch=z9hG4bKtop ," ++
      "SIP/2.0/UDP b;\r\n branch=z9hG4bKdown\r\n\r\n").toList
    let via : Header :=
      ⟨"v : SIP/2.0/UDP a:5060;rport;branch=z9hG4bKtop ,SIP/2.0/UDP b;".toList, [" branch=z9hG4bKdown".toList]⟩
    topViaBranch asciiOnly raw = branchParam via.value ∧ branchParam via.value = some "z9hG4bKtop".toList := by
  intro raw via
  have hraw : raw = _ :=
    String.toList_append.trans (congrArg₂ (· ++ ·) String.toList_ofList String.toList_ofList)
  have hline : via.line = _ := String.toList_ofList
  have hvia : topVia asciiOnly raw = some ⟨via.line, via.folds⟩ := by
    rw [hraw, hline]
    decide +kernel
  have hfirst : (headerLines raw).find? (namesVia asciiOnly) = some via.line := by
    rw [hraw, hline]
    decide +kernel
  have hspelled : place Char.toLower (afterColon via.unfolded) = place id (afterColon via.line) := by decide
  exact ⟨(via_readings_agree_iff asciiOnly raw via hvia).1 ⟨hfirst, hspelled⟩, by decide⟩

/-- A capital letter in the parameter's name: the request is not tracked at all. -/
theorem via_readings_differ :
    let raw := "INVITE sip:b@h SIP/2.0\r\nVia: SIP/2.0/UDP a:5060;Branch=z9hG4bKx\r\n\r\n".toList
    let via : Header := ⟨"Via: SIP/2.0/UDP a:5060;Branch=z9hG4bKx".toList, []⟩
    topVia asciiOnly raw = some via ∧ topViaBranch asciiOnly raw = none ∧
      branchParam via.value = some "z9hG4bKx".toList := by
  decide

end Headers

end NixiSbc.ViaReadings
