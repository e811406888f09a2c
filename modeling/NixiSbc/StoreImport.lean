import NixiSbc.Hydration
import NixiSbc.KeyedRows
import NixiSbc.OrderedMaps

namespace NixiSbc.StoreImport

open TextFields KeyedRows
open Hydration (DidRow TrunkRow AclRuleRow DestinationRuleRow aclDefaultActionKey settingDefaultConcurrent
  settingDefaultCpm destinationRulesSeededKey)

structure UserRow extends Hydration.UserRow where
  realm : List Char
  displayName : Option (List Char)

structure RouteRow extends Hydration.RouteRow where
  id : Nat
  priority : Int64
  description : Option (List Char)

inductive ImportMode
  | merge
  | replace
  deriving DecidableEq

structure ImportUserLimits where
  defaultMaxConcurrentCalls : Option UInt32
  defaultMaxCallsPerMinute : Option UInt32
  deriving DecidableEq

/-- The document of an export. A section that is missing is left alone. -/
structure ImportDoc where
  users : Option (List UserRow)
  dids : Option (List DidRow)
  trunks : Option (List TrunkRow)
  routes : Option (List RouteRow)
  aclRules : Option (List AclRuleRow)
  aclDefaultAction : Option (List Char)
  destinationRules : Option (List DestinationRuleRow)
  userLimits : Option ImportUserLimits

structure SectionReport where
  inserted : Nat
  updated : Nat
  deleted : Nat
  deriving DecidableEq

structure ImportReport where
  users : Option SectionReport
  dids : Option SectionReport
  trunks : Option SectionReport
  routes : Option SectionReport
  aclRules : Option SectionReport
  destinationRules : Option SectionReport
  settingsSet : List (List Char × List Char)
  settingsRemoved : List (List Char)
  deletedTrunks : List (List Char)

def ImportReport.empty : ImportReport := ⟨none, none, none, none, none, none, [], [], []⟩

/-- What the schema refuses. -/
inductive Violation
  | unique
  | foreignKey
  | check
  deriving DecidableEq

/-- A violation, with the row that the import was at. -/
structure Error where
  table : List Char
  key : List Char
  detail : Violation
  deriving DecidableEq

/-- The tables. Routes stand in the order of their ids, and `routeSeq` is the
largest id that a route has had. -/
structure Db where
  users : List UserRow
  dids : List DidRow
  trunks : List TrunkRow
  routes : List RouteRow
  routeSeq : Nat
  aclRules : List AclRuleRow
  destinationRules : List DestinationRuleRow
  settings : List Char → Option (List Char)

section Rows

variable {R : Type}

/-- Whether the row is new, and the table with it. -/
def upsertRow (key : R → List Char) (row : R) (rows : List R) : Bool × List R :=
  (key row ∉ rows.map key, put key row rows)

def upsertUserOn (row : UserRow) (rows : List UserRow) : Except Violation (Bool × List UserRow) :=
  .ok (upsertRow (·.username) row rows)

def upsertDidOn (row : DidRow) (rows : List DidRow) : Except Violation (Bool × List DidRow) :=
  .ok (upsertRow (·.number) row rows)

def upsertTrunkOn (row : TrunkRow) (rows : List TrunkRow) : Except Violation (Bool × List TrunkRow) :=
  .ok (upsertRow (·.name) row rows)

def isAction (action : List Char) : Bool := action = "allow".toList ∨ action = "deny".toList

def upsertAclRuleOn (row : AclRuleRow) (rows : List AclRuleRow) : Except Violation (Bool × List AclRuleRow) :=
  if isAction row.action then .ok (upsertRow (·.id) row rows) else .error .check

def upsertDestinationRuleOn (row : DestinationRuleRow) (rows : List DestinationRuleRow) :
    Except Violation (Bool × List DestinationRuleRow) :=
  if isAction row.action then .ok (upsertRow (·.id) row rows) else .error .check

end Rows

/-- The routes with what an insertion depends on: the names of the trunks, and
the largest id so far. -/
structure RouteTable where
  trunks : List (List Char)
  routes : List RouteRow
  seq : Nat

def RouteRow.naturalKey (row : RouteRow) : List Char × List Char := (row.dialPrefix, row.trunkName)

/-- A route that is there keeps its id. A new one gets an id past all that there
have been, and needs its trunk. -/
def upsertRouteOn (nextId : Nat → Nat) (row : RouteRow) (t : RouteTable) : Except Violation (Bool × RouteTable) :=
  if row.naturalKey ∈ t.routes.map RouteRow.naturalKey then
    let routes := upsert RouteRow.naturalKey (fun old => { row with id := old.id }) row t.routes
    .ok (false, { t with routes := routes })
  else if row.trunkName ∈ t.trunks then
    .ok (true, { t with routes := t.routes ++ [{ row with id := nextId t.seq }], seq := nextId t.seq })
  else .error .foreignKey

def insertRoute (nextId : Nat → Nat) (row : RouteRow) (db : Db) : Except Violation (Nat × Db) :=
  let id := nextId db.routeSeq
  if row.naturalKey ∈ db.routes.map RouteRow.naturalKey then .error .unique
  else if row.trunkName ∉ db.trunks.map (·.name) then .error .foreignKey
  else .ok (id, { db with routes := db.routes ++ [{ row with id := id }], routeSeq := id })

def count (report : SectionReport) (inserted : Bool) : SectionReport :=
  if inserted then { report with inserted := report.inserted + 1 }
  else { report with updated := report.updated + 1 }

/-- The rows of a section, one after the other. -/
def upsertEach {R T : Type} (table : List Char) (name : R → List Char) (upsertOn : R → T → Except Violation (Bool × T)) :
    List R → SectionReport → T → Except Error (SectionReport × T)
  | [], report, t => .ok (report, t)
  | row :: rows, report, t =>
      match upsertOn row t with
      | .ok (inserted, t) => upsertEach table name upsertOn rows (count report inserted) t
      | .error detail => .error ⟨table, name row, detail⟩

/-- The keys that are not wanted, in their order, and the rows of the others. -/
def deleteMissing {R : Type} (key : R → List Char) (wanted : List (List Char)) (rows : List R) :
    List (List Char) × List R :=
  (sortBy id ((rows.map key).filter (· ∉ wanted)), rows.filter (key · ∈ wanted))

/-- A section of plain rows: its report, the keys that went, and the table. -/
def importSection {R : Type} (mode : ImportMode) (table : List Char) (key : R → List Char)
    (upsertOn : R → List R → Except Violation (Bool × List R)) (given : Option (List R)) (t : List R) :
    Except Error (Option SectionReport × List (List Char) × List R) :=
  match given with
  | none => .ok (none, [], t)
  | some rows =>
      let (deleted, kept) := match mode with
        | .replace => deleteMissing key (rows.map key) t
        | .merge => ([], t)
      match upsertEach table key upsertOn rows ⟨0, 0, deleted.length⟩ kept with
      | .ok (report, t) => .ok (some report, deleted, t)
      | .error e => .error e

def routeName (row : RouteRow) : List Char := row.dialPrefix ++ " → ".toList ++ row.trunkName

def importRoutes (nextId : Nat → Nat) (mode : ImportMode) (given : Option (List RouteRow)) (t : RouteTable) :
    Except Error (Option SectionReport × RouteTable) :=
  match given with
  | none => .ok (none, t)
  | some rows =>
      let kept := match mode with
        | .replace => t.routes.filter (·.naturalKey ∈ rows.map RouteRow.naturalKey)
        | .merge => t.routes
      let deleted := t.routes.length - kept.length
      match upsertEach "routes".toList routeName (upsertRouteOn nextId) rows ⟨0, 0, deleted⟩ { t with routes := kept } with
      | .ok (report, t) => .ok (some report, t)
      | .error e => .error e

abbrev Settings := List Char → Option (List Char)

/-- The settings, with those that were set and those that were removed. -/
structure Written where
  settings : Settings
  set : List (List Char × List Char)
  removed : List (List Char)

def setSetting (key value : List Char) (w : Written) : Written :=
  ⟨Function.update w.settings key (some value), OrderedMaps.insert key value w.set, w.removed⟩

/-- A limit that is given is set. One that is not is removed by a replacement. -/
def importLimit (mode : ImportMode) (key : List Char) (value : Option UInt32) (w : Written) : Written :=
  match value with
  | some v => setSetting key (showNat v.toNat) w
  | none =>
      if mode = .replace ∧ (w.settings key).isSome then
        ⟨Function.update w.settings key none, w.set, w.removed ++ [key]⟩
      else w

def importSettings (mode : ImportMode) (action : Option (List Char)) (limits : Option ImportUserLimits)
    (settings : Settings) : Written :=
  let w : Written := ⟨settings, [], []⟩
  let w := match action with
    | some action => setSetting aclDefaultActionKey.toList action w
    | none => w
  match limits with
  | some limits =>
      importLimit mode settingDefaultCpm.toList limits.defaultMaxCallsPerMinute
        (importLimit mode settingDefaultConcurrent.toList limits.defaultMaxConcurrentCalls w)
  | none => w

def userLimitsSeededKey : String := "user_limits_seeded_at"

def markSeeded (now : List Char → List Char) (key : List Char) (settings : Settings) : Settings :=
  if settings key = none then Function.update settings key (some (now key)) else settings

/-- A section that the document carries is not seeded again. -/
def markSections (now : List Char → List Char) (doc : ImportDoc) (settings : Settings) : Settings :=
  let settings :=
    if doc.destinationRules.isSome then markSeeded now destinationRulesSeededKey.toList settings else settings
  if doc.users.isSome then markSeeded now userLimitsSeededKey.toList settings else settings

/-- The import on the connection of its transaction. The routes of a trunk that
is deleted go with it. -/
def importOn (nextId : Nat → Nat) (now : List Char → List Char) (doc : ImportDoc) (mode : ImportMode) (db : Db) :
    Except Error (ImportReport × Db) := do
  let (trunks, deletedTrunks, trunkRows) ← importSection mode "trunks".toList (·.name) upsertTrunkOn doc.trunks db.trunks
  let cascaded := db.routes.filter (·.trunkName ∉ deletedTrunks)
  let (routes, t) ← importRoutes nextId mode doc.routes ⟨trunkRows.map (·.name), cascaded, db.routeSeq⟩
  let (users, _, userRows) ← importSection mode "users".toList (·.username) upsertUserOn doc.users db.users
  let (dids, _, didRows) ← importSection mode "dids".toList (·.number) upsertDidOn doc.dids db.dids
  let (aclRules, _, aclRows) ← importSection mode "acl_rules".toList (·.id) upsertAclRuleOn doc.aclRules db.aclRules
  let (destinationRules, _, destinationRows) ←
    importSection mode "destination_rules".toList (·.id) upsertDestinationRuleOn doc.destinationRules db.destinationRules
  let w := importSettings mode doc.aclDefaultAction doc.userLimits db.settings
  .ok (⟨users, dids, trunks, routes, aclRules, destinationRules, w.set, w.removed, deletedTrunks⟩,
    ⟨userRows, didRows, trunkRows, t.routes, t.seq, aclRows, destinationRows, markSections now doc w.settings⟩)

/-- With a dry run, or an error, the transaction is rolled back. -/
def runImport (nextId : Nat → Nat) (now : List Char → List Char) (doc : ImportDoc) (mode : ImportMode) (dryRun : Bool) (db : Db) :
    Except Error ImportReport × Db :=
  match importOn nextId now doc mode db with
  | .ok (report, db') => (.ok report, if dryRun then db else db')
  | .error e => (.error e, db)

section Export

def listTrunks (db : Db) : List TrunkRow := sortBy (·.name) db.trunks

def listRoutes (db : Db) : List RouteRow := sortBy (fun r => toLex (r.priority.toInt, r.id)) db.routes

end Export

section Sections

variable {K R T : Type} [DecidableEq K]

def keptRows (mode : ImportMode) (key : R → K) (rows t : List R) : List R :=
  match mode with
  | .merge => t
  | .replace => t.filter (key · ∈ rows.map key)

/-- What a section leaves in its table. -/
def sectionRows (mode : ImportMode) (key : R → K) : Option (List R) → List R → List R
  | none, t => t
  | some rows, t => putAll key rows (keptRows mode key rows t)

def SectionReport.add (report : SectionReport) (inserted rows : Nat) : SectionReport :=
  ⟨report.inserted + inserted, report.updated + (rows - inserted), report.deleted⟩

variable {table : List Char} {name key : R → List Char} {upsertOn : R → List R → Except Violation (Bool × List R)}
  {accepts : R → Bool} {v : Violation} {mode : ImportMode} {rows t : List R} {given : Option (List R)}

/-- An upsert that only looks at the row itself. -/
def Plain (key : R → List Char) (accepts : R → Bool) (v : Violation)
    (upsertOn : R → List R → Except Violation (Bool × List R)) : Prop :=
  ∀ r t, upsertOn r t = if accepts r then .ok (upsertRow key r t) else .error v

end Sections

section Routes

def RouteRow.withoutId (row : RouteRow) : RouteRow := { row with id := 0 }

/-- The routes, whatever ids they have. -/
def contents (routes : List RouteRow) : List RouteRow := routes.map RouteRow.withoutId

/-- The ids ascend, and none is past the largest one so far. -/
structure Numbered (routes : List RouteRow) (seq : Nat) : Prop where
  ascending : (routes.map (·.id)).Pairwise (· < ·)
  bounded : ∀ r ∈ routes, r.id ≤ seq

/-- What the rows make of the routes. Those that were there keep their ids. -/
structure RoutesPut (rows : List RouteRow) (t t' : RouteTable) : Prop where
  trunks : t'.trunks = t.trunks
  holds : contents t'.routes = putAll RouteRow.naturalKey (contents rows) (contents t.routes)
  ids : t.routes.map (·.id) <+: t'.routes.map (·.id)
  numbered : Numbered t.routes t.seq → Numbered t'.routes t'.seq
  seq : newRows RouteRow.naturalKey (contents rows) (contents t.routes) = 0 → t'.seq = t.seq

variable {nextId : Nat → Nat} {row : RouteRow} {rows routes routes' : List RouteRow} {t t' t'' : RouteTable}

theorem keys_contents (routes : List RouteRow) :
    (contents routes).map RouteRow.naturalKey = routes.map RouteRow.naturalKey := by
  rw [contents, List.map_map]
  rfl

theorem RoutesPut.refl (t : RouteTable) : RoutesPut [] t t :=
  ⟨rfl, rfl, List.prefix_rfl, id, fun _ => rfl⟩

theorem RoutesPut.cons (h : RoutesPut [row] t t') (h' : RoutesPut rows t' t'') : RoutesPut (row :: rows) t t'' where
  trunks := h'.trunks.trans h.trunks
  holds := by
    rw [h'.holds, h.holds]
    rfl
  ids := h.ids.trans h'.ids
  numbered := h'.numbered ∘ h.numbered
  seq hnew := by
    have hput : contents t'.routes = put RouteRow.naturalKey row.withoutId (contents t.routes) := h.holds
    rw [contents, List.map_cons, newRows, Nat.add_eq_zero_iff, ← hput] at hnew
    rw [h'.seq hnew.2, h.seq hnew.1]

theorem RoutesPut.keys (h : RoutesPut [row] t t') {k : List Char × List Char} :
    k ∈ t'.routes.map RouteRow.naturalKey ↔ k = row.naturalKey ∨ k ∈ t.routes.map RouteRow.naturalKey := by
  rw [← keys_contents, h.holds, ← keys_contents t.routes]
  exact mem_keys_put

theorem Numbered.sublist {seq : Nat} (h : Numbered routes seq) (hsub : routes'.Sublist routes) : Numbered routes' seq :=
  ⟨h.ascending.sublist (hsub.map _), fun r hr => h.bounded r (hsub.subset hr)⟩

end Routes

section Whole

/-- What the schema and the order of the ids promise. -/
structure WellFormed (db : Db) : Prop where
  users : (db.users.map (·.username)).Nodup
  dids : (db.dids.map (·.number)).Nodup
  trunks : (db.trunks.map (·.name)).Nodup
  routes : (db.routes.map RouteRow.naturalKey).Nodup
  numbered : Numbered db.routes db.routeSeq
  owned : ∀ r ∈ db.routes, r.trunkName ∈ db.trunks.map (·.name)
  aclRules : (db.aclRules.map (·.id)).Nodup
  aclActions : ∀ r ∈ db.aclRules, isAction r.action = true
  destinationRules : (db.destinationRules.map (·.id)).Nodup
  destinationActions : ∀ r ∈ db.destinationRules, isAction r.action = true

variable {nextId : Nat → Nat} {now : List Char → List Char} {doc : ImportDoc} {mode : ImportMode} {db db' : Db}

/-- The trunks that an import leaves. -/
def trunksAfter (doc : ImportDoc) (mode : ImportMode) (db : Db) : List TrunkRow := sectionRows mode (·.name) doc.trunks db.trunks

/-- The row that an error is about. -/
inductive Names (doc : ImportDoc) (mode : ImportMode) (db : Db) : Error → Prop
  | route {rows : List RouteRow} {r : RouteRow} : rows ∈ doc.routes → r ∈ rows →
      r.trunkName ∉ (trunksAfter doc mode db).map (·.name) → Names doc mode db ⟨"routes".toList, routeName r, .foreignKey⟩
  | aclRule {rows : List AclRuleRow} {r : AclRuleRow} : rows ∈ doc.aclRules → r ∈ rows → isAction r.action = false →
      Names doc mode db ⟨"acl_rules".toList, r.id, .check⟩
  | destinationRule {rows : List DestinationRuleRow} {r : DestinationRuleRow} : rows ∈ doc.destinationRules → r ∈ rows →
      isAction r.action = false → Names doc mode db ⟨"destination_rules".toList, r.id, .check⟩

section Keys

variable {R : Type} {key : R → List Char} {given : Option (List R)} {t : List R} {k : List Char}

end Keys

end Whole

end NixiSbc.StoreImport
