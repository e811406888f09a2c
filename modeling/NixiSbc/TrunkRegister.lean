import NixiSbc.Digest
import NixiSbc.RawSip
import NixiSbc.TextWords

namespace NixiSbc.TrunkRegister

open TextScan TextFields TextLines TextWords RawSip
open Digest (DigestChallenge)

/-- A response as it is written out again for the task that waits. -/
structure Response where
  call : Nat
  cseq : UInt32
  status : UInt16
  reason : List Char
  rest : List Char
  one_line : '\n' ∉ reason

def Response.raw (r : Response) : List Char :=
  "SIP/2.0 ".toList ++ showNat r.status.toNat ++ ' ' :: r.reason ++ '\r' :: '\n' :: r.rest

def parseStatus (raw : List Char) : UInt16 :=
  (((words ((lines raw).headD []))[1]?.bind (parseUnsigned 16)).map UInt16.ofNat).getD 0

section

variable (U : Lowering)

/-- The first field that says something, an unreadable one included. -/
def parseExpires (raw : List Char) : Option UInt32 := go (lines raw)
where
  go : List (List Char) → Option UInt32
    | [] => none
    | line :: ls =>
        if "expires:".toList <+: toLowercase U line then (secondField ':' line).bind fun val => parseU32 (trim val)
        else if "contact:".toList <+: toLowercase U line then
          match findSub "expires=".toList (toLowercase U line) with
          | some pos => parseU32 ((line.drop (pos + 8)).takeWhile isDigit)
          | none => go ls
        else go ls

def extractHeader (raw headerName : List Char) : Option (List Char) :=
  ((lines raw).find? fun line => toLowercase U headerName ++ [':'] <+: toLowercase U line).map headerValue

inductive RegisterOutcome
  | registered (granted : UInt32)
  | intervalTooBrief (minExpires : UInt32)
  | refused (status : UInt16)
  | timeout
  | sendFailed (error : List Char)
  | malformed (error : List Char)
  | cancelled
  deriving DecidableEq

def minExpiresOf (raw : List Char) : RegisterOutcome :=
  match (extractHeader U raw "min-expires".toList).bind fun v => parseU32 (trim v) with
  | some minExpires =>
      if 0 < minExpires then .intervalTooBrief minExpires else .malformed "423 without a usable Min-Expires".toList
  | none => .malformed "423 without a usable Min-Expires".toList

def granted (expires : UInt32) (raw : List Char) : UInt32 := (parseExpires U raw).getD expires

def challenged (status : UInt16) (header raw : List Char) : Option RegisterOutcome :=
  match extractHeader U raw header with
  | none => some (.malformed ("no ".toList ++ header ++ " in ".toList ++ showNat status.toNat))
  | some challenge =>
      match DigestChallenge.fromHeader challenge with
      | .error e => some (.malformed ("bad challenge: ".toList ++ e))
      | .ok _ => none

/-- What a REGISTER without credentials comes to; with a usable challenge it is sent again. -/
def firstAnswer (expires : UInt32) (raw : List Char) : Option RegisterOutcome :=
  let status := parseStatus raw
  if status = 200 then some (.registered (granted U expires raw))
  else if status = 423 then some (minExpiresOf U raw)
  else if status = 401 then challenged U status "www-authenticate".toList raw
  else if status = 407 then challenged U status "proxy-authenticate".toList raw
  else some (.refused status)

def secondAnswer (expires : UInt32) (raw : List Char) : RegisterOutcome :=
  let status := parseStatus raw
  if status = 200 then .registered (granted U expires raw)
  else if status = 423 then minExpiresOf U raw
  else .refused status

end

theorem isWord_version : IsWord "SIP/2.0".toList := ⟨by decide, not_blank_of_all (by decide)⟩

def Response.line (r : Response) : List Char :=
  "SIP/2.0".toList ++ ' ' :: (showNat r.status.toNat ++ ' ' :: r.reason)

theorem Response.line_one (r : Response) : '\n' ∉ r.line := by
  refine List.not_mem_append isWord_version.not_lf (List.not_mem_cons_of_ne_of_not_mem (by decide) ?_)
  exact List.not_mem_append (isWord_showNat _).not_lf (List.not_mem_cons_of_ne_of_not_mem (by decide) r.one_line)

theorem Response.raw_eq (r : Response) : r.raw = r.line ++ '\r' :: '\n' :: r.rest := by
  have hversion : "SIP/2.0 ".toList = "SIP/2.0".toList ++ [' '] := rfl
  unfold Response.raw Response.line
  rw [hversion]
  simp only [List.append_assoc, List.cons_append, List.nil_append]

/-- The status is read back from what is written out. -/
theorem parseStatus_raw (r : Response) : parseStatus r.raw = r.status := by
  have hwords : words r.line = "SIP/2.0".toList :: showNat r.status.toNat :: words r.reason := by
    unfold Response.line
    rw [words_cons isWord_version, words_cons (isWord_showNat _)]
  have hsecond : (words r.line)[1]? = some (showNat r.status.toNat) := by
    rw [hwords]
    rfl
  have hfirst : (lines r.raw).headD [] = r.line := by
    rw [r.raw_eq, lines_append r.line_one, List.headD_cons]
  have hstatus : ((words r.line)[1]?.bind (parseUnsigned 16)).map UInt16.ofNat = some r.status := by
    rw [hsecond, Option.bind_some, parseUnsigned_showNat r.status.toNat_lt, Option.map_some, UInt16.ofNat_toNat]
  unfold parseStatus
  rw [hfirst, hstatus]
  rfl

variable {U : Lowering} {expires : UInt32} {raw : List Char} {s : UInt16}

theorem minExpiresOf_ne_refused : minExpiresOf U raw ≠ .refused s := by
  rw [minExpiresOf]
  split
  · split
    · nofun
    · nofun
  · nofun

theorem status_of_refused (h : secondAnswer U expires raw = .refused s) : parseStatus raw = s ∧ s ≠ 200 := by
  rw [secondAnswer] at h
  split at h
  · cases h
  next hok =>
    split at h
    · exact absurd h minExpiresOf_ne_refused
    · cases h
      exact ⟨rfl, hok⟩

theorem challenged_ne_refused {status : UInt16} {header : List Char} :
    challenged U status header raw ≠ some (.refused s) := by
  rw [challenged]
  split
  · nofun
  · split
    · nofun
    · nofun

theorem status_of_first_refused (h : firstAnswer U expires raw = some (.refused s)) :
    parseStatus raw = s ∧ s ≠ 200 := by
  rw [firstAnswer] at h
  split at h
  · cases h
  next hok =>
    split at h
    · exact absurd (Option.some.inj h) minExpiresOf_ne_refused
    · split at h
      · exact absurd h challenged_ne_refused
      · split at h
        · exact absurd h challenged_ne_refused
        · cases h
          exact ⟨rfl, hok⟩

end NixiSbc.TrunkRegister
