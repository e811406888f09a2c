import Mathlib.Logic.Function.Basic
import NixiSbc.HydratedTrunks

namespace NixiSbc.TrunkApplications

open Hydration HydratedTrunks
open Trunks (TrunkId)

structure Store where
  trunks : List TrunkRow
  routes : List RouteRow
  nodup : (trunks.map (·.name)).Nodup

inductive Write
  | upsert (row : TrunkRow)
  | delete (name : List Char)
  | routes (rows : List RouteRow)

def upsertTrunk (row : TrunkRow) : List TrunkRow → List TrunkRow
  | [] => [row]
  | r :: l => if r.name = row.name then row :: l else r :: upsertTrunk row l

theorem mem_name_upsertTrunk {row : TrunkRow} {l : List TrunkRow} {name : List Char} :
    name ∈ (upsertTrunk row l).map (·.name) ↔ name = row.name ∨ name ∈ l.map (·.name) := by
  induction l with
  | nil => simp [upsertTrunk]
  | cons r l ih =>
      rw [upsertTrunk]
      split
      next h => simp [h]
      next => rw [List.map_cons, List.mem_cons, ih, List.map_cons, List.mem_cons, or_left_comm]

theorem nodup_upsertTrunk (row : TrunkRow) {l : List TrunkRow} (h : (l.map (·.name)).Nodup) :
    ((upsertTrunk row l).map (·.name)).Nodup := by
  induction l with
  | nil => exact List.nodup_singleton _
  | cons r l ih =>
      obtain ⟨hr, hl⟩ := List.nodup_cons.mp h
      rw [upsertTrunk]
      split
      next hname =>
        refine List.nodup_cons.mpr ⟨?_, hl⟩
        change row.name ∉ _
        rw [← hname]
        exact hr
      next hname =>
        rw [List.map_cons, List.nodup_cons, mem_name_upsertTrunk, not_or]
        exact ⟨⟨hname, hr⟩, ih hl⟩

/-- A deleted trunk takes its routes along. A trunk that is not there cannot be deleted. -/
def Store.write (s : Store) : Write → Option Store
  | .upsert row => some ⟨upsertTrunk row s.trunks, s.routes, nodup_upsertTrunk row s.nodup⟩
  | .delete name =>
      if name ∈ s.trunks.map (·.name) then
        some {
          trunks := s.trunks.filter (·.name ≠ name)
          routes := s.routes.filter (·.trunkName ≠ name)
          nodup := (List.filter_sublist.map _).nodup s.nodup }
      else none
  | .routes rows => some { s with routes := rows }

def removeByName (name : List Char) : TrunkTable → TrunkTable
  | [] => []
  | t :: l => if t.name = name then l else t :: removeByName name l

def disableTrunk (id : TrunkId) (l : TrunkTable) : TrunkTable :=
  l.map fun t => if t.id = id then { t with enabled := false } else t

/-- How far a request is: `seen` is what it has listed of the store, and `todo` the rows
that it has not applied yet or the trunks that it has not looked at for disabling. -/
inductive Phase
  | idle
  | removing (name : List Char)
  | pending
  | listed (seen : Store)
  | looking (seen : Store) (todo : List TrunkRow)
  | found (seen : Store) (cfg : TrunkConfig) (existing : Option TrunkConfig) (todo : List TrunkRow)
  | resolved (seen : Store) (cfg : TrunkConfig) (known : Bool) (todo : List TrunkRow)
  | sweeping (seen : Store) (todo : List TrunkConfig)
  | done
  | failed

inductive Act
  | write (w : Write)
  | remove
  | listTrunks
  | listRoutes
  | listFails
  | look (id : TrunkId)
  | resolve (addr : Option Stun.SocketAddr)
  | update
  | disable

def afterWrite : Write → Phase
  | .delete name => .removing name
  | _ => .pending

/-- The destination is new where the trunk is, or where its host or port changes. -/
def moved (cfg : TrunkConfig) : Option TrunkConfig → Bool
  | none => true
  | some existing => existing.host ≠ cfg.host ∨ existing.port ≠ cfg.port

def destined (cfg : TrunkConfig) (existing : Option TrunkConfig) (addr : Option Stun.SocketAddr) : TrunkConfig :=
  if moved cfg existing then { cfg with resolvedAddr := addr } else cfg

/-- One step of a request. An id that is drawn is none of the table's, and the answer to a
request whose listing fails is still a success. -/
def act (E : Env) (store : Store) (table : TrunkTable) : Phase → Act → Store × TrunkTable × Phase
  | .idle, .write w =>
      match store.write w with
      | some store' => (store', table, afterWrite w)
      | none => (store, table, .failed)
  | .removing name, .remove => (store, removeByName name table, .pending)
  | .pending, .listTrunks => (store, table, .listed store)
  | .pending, .listFails => (store, table, .done)
  | .listed seen, .listRoutes => (store, table, .looking { seen with routes := store.routes } seen.trunks)
  | .listed _, .listFails => (store, table, .done)
  | .looking seen (row :: todo), .look id =>
      if id ∈ table.map (·.id) then (store, table, .looking seen (row :: todo))
      else (store, table, .found seen (trunkRowToConfig E (fun _ => id) row (routesByTrunk seen.routes row.name))
        (findByName table row.name) todo)
  | .looking seen [], .look _ => (store, table, .sweeping seen table)
  | .found seen cfg existing todo, .resolve addr =>
      (store, table, .resolved seen (destined cfg existing addr) existing.isSome todo)
  | .resolved seen cfg known todo, .update =>
      (store, if known then updateTrunkByName table cfg.name cfg else addTrunk table cfg, .looking seen todo)
  | .sweeping seen (t :: todo), .disable =>
      (store, if t.name ∉ seen.trunks.map (·.name) ∧ t.enabled then disableTrunk t.id table else table,
        .sweeping seen todo)
  | .sweeping _ [], .disable => (store, table, .done)
  | phase, _ => (store, table, phase)

structure Cfg (ι : Type) where
  store : Store
  table : TrunkTable
  phase : ι → Phase

def step {ι : Type} [DecidableEq ι] (E : Env) (c : Cfg ι) (a : ι × Act) : Cfg ι :=
  let r := act E c.store c.table (c.phase a.1) a.2
  ⟨r.1, r.2.1, Function.update c.phase a.1 r.2.2⟩

def start (ι : Type) (store : Store) (table : TrunkTable) : Cfg ι := ⟨store, table, fun _ => .idle⟩

@[simp] theorem name_destined (cfg : TrunkConfig) (existing : Option TrunkConfig) (addr : Option Stun.SocketAddr) :
    (destined cfg existing addr).name = cfg.name := by
  rw [destined]
  split <;> rfl

@[simp] theorem id_destined (cfg : TrunkConfig) (existing : Option TrunkConfig) (addr : Option Stun.SocketAddr) :
    (destined cfg existing addr).id = cfg.id := by
  rw [destined]
  split <;> rfl

@[simp] theorem settings_destined (cfg : TrunkConfig) (existing : Option TrunkConfig) (addr : Option Stun.SocketAddr) :
    settings (destined cfg existing addr) = settings cfg := by
  rw [destined]
  split <;> rfl

section Table

variable {l : TrunkTable} {t config : TrunkConfig} {name : List Char}

theorem updateTrunkByName_eq (l : TrunkTable) (name : List Char) (config : TrunkConfig) :
    updateTrunkByName l name config = l ∨
    ∃ existing, findByName l name = some existing ∧
      updateTrunkByName l name config = writeFirst name (merged existing config) l := by
  rw [updateTrunkByName]
  cases h : findByName l name with
  | none => exact .inl rfl
  | some existing => exact .inr ⟨existing, rfl, rfl⟩

theorem names_writeFirst (h : config.name = name) : (writeFirst name config l).map (·.name) = l.map (·.name) := by
  induction l with
  | nil => rfl
  | cons t l ih =>
      rw [writeFirst]
      split
      next ht => simp [h, ht]
      next => simp [ih]

theorem names_updateTrunkByName :
    (updateTrunkByName l config.name config).map (·.name) = l.map (·.name) := by
  obtain h | ⟨existing, _, h⟩ := updateTrunkByName_eq l config.name config
  · rw [h]
  · rw [h]
    exact names_writeFirst rfl

theorem ids_writeFirst {existing : TrunkConfig} (h : findByName l name = some existing) :
    (writeFirst name (merged existing config) l).map (·.id) = l.map (·.id) := by
  induction l with
  | nil => rfl
  | cons t l ih =>
      rw [writeFirst]
      split
      next ht =>
        rw [findByName, List.find?_cons_of_pos (by simpa using ht), Option.some_inj] at h
        simp [merged, h]
      next ht =>
        rw [findByName, List.find?_cons_of_neg (by simpa using ht)] at h
        simp [ih h]

theorem ids_updateTrunkByName : (updateTrunkByName l name config).map (·.id) = l.map (·.id) := by
  obtain h | ⟨existing, hfound, h⟩ := updateTrunkByName_eq l name config
  · rw [h]
  · rw [h, ids_writeFirst hfound]

theorem mem_writeFirst_self (h : (findByName l name).isSome) : config ∈ writeFirst name config l := by
  induction l with
  | nil => cases h
  | cons t l ih =>
      rw [writeFirst]
      split
      next => exact List.mem_cons_self
      next ht =>
        rw [findByName, List.find?_cons_of_neg (by simpa using ht)] at h
        exact List.mem_cons_of_mem _ (ih h)

theorem mem_writeFirst_of_ne (h : t ∈ l) (hne : t.name ≠ name) : t ∈ writeFirst name config l := by
  induction l with
  | nil => cases h
  | cons t' l ih =>
      rw [writeFirst]
      rcases List.mem_cons.mp h with rfl | h
      · rw [if_neg hne]
        exact List.mem_cons_self
      · split
        · exact List.mem_cons_of_mem _ h
        · exact List.mem_cons_of_mem _ (ih h)

theorem mem_disableTrunk {id : TrunkId} (h : t ∈ disableTrunk id l) :
    (t ∈ l ∧ t.id ≠ id) ∨ ∃ t' ∈ l, t'.id = id ∧ t = { t' with enabled := false } := by
  obtain ⟨t', ht', rfl⟩ := List.mem_map.mp h
  by_cases hid : t'.id = id
  · rw [if_pos hid]
    exact .inr ⟨t', ht', hid, rfl⟩
  · rw [if_neg hid]
    exact .inl ⟨ht', hid⟩

theorem mem_disableTrunk_of_ne {id : TrunkId} (h : t ∈ l) (hne : t.id ≠ id) : t ∈ disableTrunk id l :=
  List.mem_map.mpr ⟨t, h, if_neg hne⟩

theorem names_disableTrunk (id : TrunkId) : (disableTrunk id l).map (·.name) = l.map (·.name) := by
  rw [disableTrunk, List.map_map]
  refine List.map_congr_left fun t _ => ?_
  simp only [Function.comp_apply]
  split <;> rfl

theorem ids_disableTrunk (id : TrunkId) : (disableTrunk id l).map (·.id) = l.map (·.id) := by
  rw [disableTrunk, List.map_map]
  refine List.map_congr_left fun t _ => ?_
  simp only [Function.comp_apply]
  split <;> rfl

theorem removeByName_sublist (name : List Char) (l : TrunkTable) : List.Sublist (removeByName name l) l := by
  induction l with
  | nil => exact List.Sublist.refl _
  | cons t l ih =>
      rw [removeByName]
      split
      · exact List.sublist_cons_self _ _
      · exact ih.cons_cons t

end Table

end NixiSbc.TrunkApplications
