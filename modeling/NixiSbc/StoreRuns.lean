import NixiSbc.StoreImport

namespace NixiSbc.StoreRuns

open KeyedRows StoreImport
open Hydration (DidRow TrunkRow AclRuleRow DestinationRuleRow)

section Sections

variable {K R : Type} [DecidableEq K] {key : R → K} {mode : ImportMode} {given : Option (List R)} {rows t : List R}
  {k : K} {r : R}

/-- What a section does to its table: what is found there afterwards, and how it is counted. -/
structure SectionOutcome (key : R → K) (mode : ImportMode) (given : Option (List R)) (report : Option SectionReport)
    (before after : List R) : Prop where
  untouched : given = none → report = none ∧ after = before
  found : ∀ rows ∈ given, ∀ k, lookup key k after =
    (rows.filter (key · = k)).getLast?.or (if mode = .merge then lookup key k before else none)
  counted : ∀ rows ∈ given, ∃ counts, report = some counts ∧ counts.inserted + counts.updated = rows.length ∧
    after.length + counts.deleted = before.length + counts.inserted

end Sections

section Imports

variable {nextId : Nat → Nat} {now : List Char → List Char} {doc : ImportDoc} {mode : ImportMode} {db db' : Db}

/-- What an import reports, and what it leaves. The routes of the trunks that go are not counted with the routes. -/
structure Outcome (doc : ImportDoc) (mode : ImportMode) (db : Db) (report : ImportReport) (db' : Db) : Prop where
  users : SectionOutcome (·.username) mode doc.users report.users db.users db'.users
  dids : SectionOutcome (·.number) mode doc.dids report.dids db.dids db'.dids
  trunks : SectionOutcome (·.name) mode doc.trunks report.trunks db.trunks db'.trunks
  deletedTrunks : ∀ name, name ∈ report.deletedTrunks ↔ name ∈ db.trunks.map (·.name) ∧ name ∉ db'.trunks.map (·.name)
  routes : SectionOutcome RouteRow.naturalKey mode (doc.routes.map contents) report.routes
    (contents (db.routes.filter (·.trunkName ∉ report.deletedTrunks))) (contents db'.routes)
  aclRules : SectionOutcome (·.id) mode doc.aclRules report.aclRules db.aclRules db'.aclRules
  destinationRules : SectionOutcome (·.id) mode doc.destinationRules report.destinationRules db.destinationRules
    db'.destinationRules

end Imports

section Operations

def deleteRow {R : Type} (key : R → List Char) (k : List Char) (rows : List R) : Bool × List R :=
  (k ∈ rows.map key, rows.filter (key · ≠ k))

def setUserLimits (username : List Char) (maxConcurrentCalls maxCallsPerMinute : Option Int64) (rows : List UserRow) :
    Bool × List UserRow :=
  (username ∈ rows.map (·.username), rows.map fun row =>
    if row.username = username then
      { row with maxConcurrentCalls := maxConcurrentCalls, maxCallsPerMinute := maxCallsPerMinute }
    else row)

/-- The routes of the trunk go with it. -/
def deleteTrunk (name : List Char) (db : Db) : Bool × Db :=
  ((deleteRow (·.name) name db.trunks).1,
    { db with
      trunks := (deleteRow (·.name) name db.trunks).2
      routes := db.routes.filter (·.trunkName ≠ name) })

def updateRoute (row : RouteRow) (db : Db) : Except Violation (Bool × Db) :=
  if row.id ∉ db.routes.map (·.id) then .ok (false, db)
  else if ∃ r ∈ db.routes, r.id ≠ row.id ∧ r.naturalKey = row.naturalKey then .error .unique
  else if row.trunkName ∉ db.trunks.map (·.name) then .error .foreignKey
  else .ok (true, { db with routes := db.routes.map fun r => if r.id = row.id then row else r })

def deleteRoute (id : Nat) (db : Db) : Bool × Db :=
  (id ∈ db.routes.map (·.id), { db with routes := db.routes.filter (·.id ≠ id) })

/-- A rule that is there, or that the schema does not take, is ignored. -/
def insertDestinationRule (row : DestinationRuleRow) (rows : List DestinationRuleRow) : Bool × List DestinationRuleRow :=
  if row.id ∈ rows.map (·.id) ∨ isAction row.action = false then (false, rows) else (true, rows ++ [row])

inductive Action
  | importDoc (now : List Char → List Char) (doc : ImportDoc) (mode : ImportMode) (dryRun : Bool)
  | upsertUser (row : UserRow)
  | deleteUser (username : List Char)
  | setUserLimits (username : List Char) (maxConcurrentCalls maxCallsPerMinute : Option Int64)
  | upsertDid (row : DidRow)
  | deleteDid (number : List Char)
  | upsertTrunk (row : TrunkRow)
  | deleteTrunk (name : List Char)
  | insertRoute (row : RouteRow)
  | updateRoute (row : RouteRow)
  | deleteRoute (id : Nat)
  | upsertAclRule (row : AclRuleRow)
  | deleteAclRule (id : List Char)
  | insertDestinationRule (row : DestinationRuleRow)
  | upsertDestinationRule (row : DestinationRuleRow)
  | deleteDestinationRule (id : List Char)
  | setSetting (key value : List Char)
  | deleteSetting (key : List Char)

/-- An operation that the schema refuses leaves what was there. -/
def written {T A : Type} (t : T) : Except Violation (A × T) → T
  | .ok (_, t') => t'
  | .error _ => t

def step (nextId : Nat → Nat) (db : Db) : Action → Db
  | .importDoc now doc mode dryRun => (runImport nextId now doc mode dryRun db).2
  | .upsertUser row => { db with users := written db.users (upsertUserOn row db.users) }
  | .deleteUser username => { db with users := (deleteRow (·.username) username db.users).2 }
  | .setUserLimits username maxConcurrentCalls maxCallsPerMinute =>
      { db with users := (StoreRuns.setUserLimits username maxConcurrentCalls maxCallsPerMinute db.users).2 }
  | .upsertDid row => { db with dids := written db.dids (upsertDidOn row db.dids) }
  | .deleteDid number => { db with dids := (deleteRow (·.number) number db.dids).2 }
  | .upsertTrunk row => { db with trunks := written db.trunks (upsertTrunkOn row db.trunks) }
  | .deleteTrunk name => (StoreRuns.deleteTrunk name db).2
  | .insertRoute row => written db (StoreImport.insertRoute nextId row db)
  | .updateRoute row => written db (StoreRuns.updateRoute row db)
  | .deleteRoute id => (StoreRuns.deleteRoute id db).2
  | .upsertAclRule row => { db with aclRules := written db.aclRules (upsertAclRuleOn row db.aclRules) }
  | .deleteAclRule id => { db with aclRules := (deleteRow (·.id) id db.aclRules).2 }
  | .insertDestinationRule row =>
      { db with destinationRules := (StoreRuns.insertDestinationRule row db.destinationRules).2 }
  | .upsertDestinationRule row =>
      { db with destinationRules := written db.destinationRules (upsertDestinationRuleOn row db.destinationRules) }
  | .deleteDestinationRule id => { db with destinationRules := (deleteRow (·.id) id db.destinationRules).2 }
  | .setSetting key value => { db with settings := Function.update db.settings key (some value) }
  | .deleteSetting key => { db with settings := Function.update db.settings key none }

def empty : Db := ⟨[], [], [], [], 0, [], [], fun _ => none⟩

def run (nextId : Nat → Nat) (actions : List Action) : Db := actions.foldl (step nextId) empty

end Operations

section Steps

variable {nextId : Nat → Nat} {db : Db}

end Steps

end NixiSbc.StoreRuns
