import NixiSbc.CdrQuery
import NixiSbc.KeysetPaging
import NixiSbc.StateRuns

namespace NixiSbc.CdrPaging

open CdrQuery KeysetPaging StateRuns

/-- No two rows of a table have one rowid. -/
structure CdrTable where
  rows : List CdrRow
  rowids : (rows.map (·.rowid)).Nodup

/-- The unique columns; an empty uuid is none. -/
def clashes (r stored : CdrRow) : Bool := stored.id = r.id ∨ r.uuid ≠ [] ∧ stored.uuid = r.uuid

/-- Duplicates are ignored. The rowid of a row is the one that the database gives it. -/
def CdrTable.insert (t : CdrTable) (r : CdrRow) : CdrTable :=
  if h : r.rowid ∈ t.rows.map (·.rowid) ∨ t.rows.any (clashes r) then t
  else
    { rows := t.rows ++ [r]
      rowids := by
        rw [List.map_append, List.map_singleton, List.nodup_append]
        refine ⟨t.rowids, List.nodup_singleton _, fun a ha b hb he => ?_⟩
        rw [List.mem_singleton.mp hb] at he
        exact (not_or.mp h).1 (he ▸ ha) }

def CdrTable.insertCdrs (t : CdrTable) (rows : List CdrRow) : CdrTable := rows.foldl CdrTable.insert t

/-- The rows are found in some order, of which the first ones go. -/
def CdrTable.purgeCdrsStartedBefore (t : CdrTable) (cutoff : Int) (batch : Int64) (scan : List Int) : CdrTable :=
  let due := scan.filter fun id => t.rows.any fun r => r.rowid = id ∧ r.startedAt < cutoff
  { rows := t.rows.filter fun r => r.rowid ∉ sqlLimit batch 0 due
    rowids := (List.filter_sublist.map _).nodup t.rowids }

/-- The order of the records. -/
def position (r : CdrRow) : Int ×ₗ Int := toLex (r.startedAt, r.rowid)

structure State where
  table : CdrTable
  reader : Listing CdrRow (Int ×ₗ Int)

inductive Action
  | insert (rows : List CdrRow)
  | purge (cutoff : Int) (batch : Int64) (scan : List Int)
  | page

/-- A cursor takes the place of an offset. -/
def request (f : CdrFilter) (reader : Listing CdrRow (Int ×ₗ Int)) : CdrFilter :=
  { f with before := reader.cursor.map ofLex, offset := 0 }

def nextPage (f : CdrFilter) (s : State) : List CdrRow × Bool := queryCdrs (request f s.reader) s.table.rows

def step (f : CdrFilter) (s : State) : Action → State
  | .insert rows => { s with table := s.table.insertCdrs rows }
  | .purge cutoff batch scan => { s with table := s.table.purgeCdrsStartedBefore cutoff batch scan }
  | .page =>
      if s.reader.done then s
      else { s with reader := s.reader.turn position (nextPage f s).1 (nextPage f s).2 }

def start (table : CdrTable) : State := ⟨table, .new⟩

section Query

variable {f : CdrFilter} {t : CdrTable} {r : CdrRow} {cursor : Int × Int}

end Query

section Runs

variable {f : CdrFilter} {s : State} {r : CdrRow}

def sampleRow (rowid : Int) (id : List Char) : CdrRow where
  rowid := rowid
  id := id
  uuid := []
  callId := id
  direction := "outbound".toList
  caller := "alice".toList
  callee := "bob".toList
  trunkId := none
  startedAt := 100
  answeredAt := none
  sipCode := some 486

end Runs

end NixiSbc.CdrPaging
