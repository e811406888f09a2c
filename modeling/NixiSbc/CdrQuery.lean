import NixiSbc.TextOrder
import Mathlib

namespace NixiSbc.CdrQuery

open Utf8 TextOrder

/-- A stored record: the columns that a query reads. -/
structure CdrRow where
  rowid : Int
  id : List Char
  uuid : List Char
  callId : List Char
  direction : List Char
  caller : List Char
  callee : List Char
  trunkId : Option (List Char)
  startedAt : Int
  answeredAt : Option Int
  sipCode : Option Int
  deriving DecidableEq

structure CdrFilter where
  startedFrom : Option Int
  startedTo : Option Int
  direction : Option (List Char)
  trunk : Option (List Char)
  callerPrefix : Option (List Char)
  calleePrefix : Option (List Char)
  sipCode : Option Int
  answered : Option Bool
  uuid : Option (List Char)
  callId : Option (List Char)
  before : Option (Int × Int)
  offset : UInt64
  limit : UInt64

def charFromU32 (n : Nat) : Option Char := if h : n.isValidChar then some (Char.ofNatAux n h) else none

/-- The prefix with its last character incremented. -/
def prefixUpper (pre : List Char) : Option (List Char) :=
  pre.getLast?.bind fun last => (charFromU32 (last.toNat + 1)).map fun next => pre.dropLast ++ [next]

/-- Texts are compared by their bytes. -/
def inPrefixRange (pre column : List Char) : Bool :=
  ¬encode column < encode pre ∧ (prefixUpper pre).all fun hi => encode column < encode hi

def beginsWith (pre : Option (List Char)) (column : List Char) : Bool :=
  (pre.filter (· ≠ [])).all (inPrefixRange · column)

/-- What the filter asks of a row, the cursor apart. -/
def CdrFilter.selects (f : CdrFilter) (r : CdrRow) : Bool :=
  f.startedFrom.all (· ≤ r.startedAt) ∧ f.startedTo.all (r.startedAt < ·) ∧ f.direction.all (r.direction = ·) ∧
    f.trunk.all (r.trunkId = some ·) ∧ f.uuid.all (fun u => r.uuid ≠ [] ∧ r.uuid = u) ∧
    f.callId.all (r.callId = ·) ∧ beginsWith f.callerPrefix r.caller ∧ beginsWith f.calleePrefix r.callee ∧
    f.sipCode.all (r.sipCode = some ·) ∧ f.answered.all (r.answeredAt.isSome = ·)

def isBefore (cursor : Int × Int) (r : CdrRow) : Bool :=
  r.startedAt < cursor.1 ∨ r.startedAt = cursor.1 ∧ r.rowid < cursor.2

/-- A limit below zero is none. -/
def sqlLimit {α : Type} (limit offset : Int64) (rows : List α) : List α :=
  let rows := rows.drop offset.toInt.toNat
  if limit.toInt < 0 then rows else rows.take limit.toInt.toNat

/-- Newest first. -/
def sqlOrder (rows : List CdrRow) : List CdrRow :=
  rows.mergeSort fun a b => b.startedAt < a.startedAt ∨ b.startedAt = a.startedAt ∧ b.rowid ≤ a.rowid

def queryCdrs (f : CdrFilter) (table : List CdrRow) : List CdrRow × Bool :=
  let limit := (max f.limit 1).toInt64
  let rows := sqlLimit (limit + 1) f.offset.toInt64
    (sqlOrder (table.filter fun r => f.selects r ∧ f.before.all (isBefore · r)))
  (rows.take limit.toUInt64.toNat, (UInt64.ofNat rows.length).toInt64 > limit)

section Prefixes

variable {pre s : List Char} {c d : Char}

theorem toNat_charFromU32 {n : Nat} (h : charFromU32 n = some d) : d.toNat = n := by
  rw [charFromU32] at h
  split at h
  next hvalid =>
    cases h
    rfl
  next => cases h

/-- There is no character between. -/
theorem covBy_next (h : charFromU32 (c.toNat + 1) = some d) : c ⋖ d := by
  have hd := toNat_charFromU32 h
  constructor
  · exact show c.toNat < d.toNat by omega
  · intro e hce hed
    have hlow : c.toNat < e.toNat := hce
    have hhigh : e.toNat < d.toNat := hed
    omega

/-- The next number is a character's, but for the last ones before the surrogates
and of all. -/
theorem charFromU32_isSome_iff :
    (charFromU32 (c.toNat + 1)).isSome ↔ c.toNat ≠ 0xD7FF ∧ c.toNat ≠ 0x10FFFF := by
  have hvalid : c.toNat < 0xD800 ∨ 0xDFFF < c.toNat ∧ c.toNat < 0x110000 := c.valid
  rw [charFromU32]
  split
  next h =>
    rw [Nat.isValidChar] at h
    simp only [Option.isSome_some, true_iff]
    omega
  next h =>
    rw [Nat.isValidChar] at h
    simp only [Option.isSome_none, Bool.false_eq_true, false_iff]
    omega

theorem isMax_iff : IsMax c ↔ c.toNat = 0x10FFFF := by
  constructor
  · intro h
    have htop : (Char.ofNat 0x10FFFF).toNat ≤ c.toNat := by
      rcases le_total c (Char.ofNat 0x10FFFF) with hle | hge
      · exact h hle
      · exact hge
    have hlt := toNat_lt c
    have hval : (Char.ofNat 0x10FFFF).toNat = 0x10FFFF := rfl
    omega
  · intro h d _
    have hd := toNat_lt d
    exact show d.toNat ≤ c.toNat by omega

theorem inPrefixRange_iff :
    inPrefixRange pre s = true ↔ pre ≤ s ∧ ∀ hi, prefixUpper pre = some hi → s < hi := by
  rw [inPrefixRange, decide_eq_true_iff, encode_lt_iff, not_lt]
  simp [Option.all_eq_true, encode_lt_iff]

/-- The last character has a next one, or there is none above any of them. -/
def Bounded (pre : List Char) : Prop :=
  (∀ c ∈ pre.getLast?, c.toNat ≠ 0xD7FF ∧ c.toNat ≠ 0x10FFFF) ∨ ∀ c ∈ pre, c.toNat = 0x10FFFF

/-- The range means the prefix exactly where its end can be told, or where no end
is needed. -/
theorem prefix_range_iff (h : pre ≠ []) :
    (∀ s, inPrefixRange pre s = true ↔ pre <+: s) ↔ Bounded pre := by
  obtain ⟨front, c, rfl⟩ := (List.eq_nil_or_concat' pre).resolve_left h
  have hlast : (front ++ [c]).getLast? = some c := List.getLast?_concat
  have hupper : prefixUpper (front ++ [c]) = (charFromU32 (c.toNat + 1)).map fun next => front ++ [next] := by
    rw [prefixUpper, hlast, Option.bind_some, List.dropLast_concat]
  simp only [inPrefixRange_iff, hupper, Bounded, hlast, Option.mem_some_iff, forall_eq']
  rw [← charFromU32_isSome_iff]
  cases hnext : charFromU32 (c.toNat + 1) with
  | some d =>
      refine iff_of_true (fun s => ?_) (.inl rfl)
      simpa using prefix_range (covBy_next hnext)
  | none =>
      have hopen : (∀ s, front ++ [c] ≤ s ↔ front ++ [c] <+: s) ↔ ∀ a ∈ front ++ [c], a.toNat = 0x10FFFF :=
        le_iff_prefix_iff.trans (forall₂_congr fun a _ => isMax_iff)
      simpa using hopen

theorem prefix_range_country :
    (∀ s, inPrefixRange "+336".toList s = true ↔ "+336".toList <+: s) ↔ Bounded "+336".toList :=
  prefix_range_iff (by decide)

/-- The last character of all leaves the range without an end. -/
theorem prefix_range_open :
    inPrefixRange ['a', Char.ofNat 0x10FFFF] ['b'] = true ∧ ¬['a', Char.ofNat 0x10FFFF] <+: ['b'] := by
  decide

end Prefixes

end NixiSbc.CdrQuery
