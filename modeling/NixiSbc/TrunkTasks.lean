import Mathlib.Data.List.Sort
import NixiSbc.Hydration

namespace NixiSbc.TrunkTasks

open KeyedTable TextFields Hydration
open Trunks (TrunkId)

/-- What the tasks of a trunk are started with. -/
structure TaskSpec where
  id : TrunkId
  name : List Char
  host : List Char
  port : UInt16
  transport : TransportType
  dest : Option Stun.SocketAddr
  register : Bool
  username : Option (List Char)
  password : Option (List Char)
  realm : Option (List Char)
  registrationInterval : UInt64
  deriving DecidableEq

section

variable (parse : List Char → Option Stun.SocketAddr)

def destination (t : TrunkConfig) : Option Stun.SocketAddr :=
  t.resolvedAddr <|> parse (t.host ++ ':' :: showNat t.port.toNat)

def TaskSpec.fromConfig (t : TrunkConfig) : TaskSpec where
  id := t.id
  name := t.name
  host := t.host
  port := t.port
  transport := t.transport
  dest := destination parse t
  register := t.registerWithTrunk
  username := t.username
  password := t.password
  realm := t.realm
  registrationInterval := t.registrationInterval

/-- The tasks that a table asks for; of trunks with one name the last one counts. -/
def desired (table : TrunkTable) : Table (List Char) TaskSpec :=
  (table.filter fun t => t.enabled ∧ t.transport = .udp).foldl
    (fun wanted t => wanted.insert t.name (.fromConfig parse t)) ∅

end

structure Running where
  spec : TaskSpec
  generation : Nat

/-- The running tasks by name, the number of tasks that were ever started and the
generations whose token was cancelled. -/
structure Registry where
  running : Table (List Char) Running
  generation : Nat
  cancelled : List Nat

abbrev Entry := Sigma fun _ : List Char => TaskSpec

section

variable (wanted : Table (List Char) TaskSpec) (reg : Registry)

def stale : List Running :=
  (reg.running.entries.filter fun e => wanted.lookup e.1 ≠ some e.2.spec).map (·.2)

def stop : Registry :=
  { reg with
    running := sweep (fun name r => if wanted.lookup name = some r.spec then some r else none) reg.running
    cancelled := reg.cancelled ++ (stale wanted reg).map (·.generation) }

def toStart : List Entry :=
  (wanted.entries.filter fun e => (reg.running.lookup e.1).isNone).insertionSort fun a b => a.1 ≤ b.1

def startOne (reg : Registry) (e : Entry) : Registry :=
  { reg with
    running := reg.running.insert e.1 ⟨e.2, reg.generation + 1⟩
    generation := reg.generation + 1 }

/-- The locked part of a sync. -/
def bringInLine : Registry := (toStart wanted (stop wanted reg)).foldl startOne (stop wanted reg)

end

variable {wanted : Table (List Char) TaskSpec} {reg : Registry} {name : List Char} {r : Running} {g : Nat}

theorem mem_toStart {e : Entry} :
    e ∈ toStart wanted reg ↔ wanted.lookup e.1 = some e.2 ∧ reg.running.lookup e.1 = none := by
  rw [toStart, List.mem_insertionSort, List.mem_filter, Option.isNone_iff_eq_none]
  exact and_congr_left' (AList.mem_lookup_iff.symm.trans Iff.rfl)

theorem nodup_toStart : ((toStart wanted reg).map (·.1)).Nodup := by
  have hperm := (List.perm_insertionSort (fun a b : Entry => a.1 ≤ b.1)
    (wanted.entries.filter fun e => (reg.running.lookup e.1).isNone)).map (·.1)
  exact hperm.nodup_iff.mpr ((List.filter_sublist.map _).nodup wanted.nodupKeys)

theorem lookup_stop : (stop wanted reg).running.lookup name =
    (reg.running.lookup name).bind fun r => if wanted.lookup name = some r.spec then some r else none :=
  lookup_sweep _ _ _

theorem lookup_stop_eq_some :
    (stop wanted reg).running.lookup name = some r ↔
      reg.running.lookup name = some r ∧ wanted.lookup name = some r.spec := by
  rw [lookup_stop, Option.bind_eq_some_iff]
  constructor
  · rintro ⟨r', hr', h⟩
    split at h
    next hwanted =>
      obtain rfl := Option.some.inj h
      exact ⟨hr', hwanted⟩
    next => cases h
  · rintro ⟨hr, hwanted⟩
    exact ⟨r, hr, if_pos hwanted⟩

theorem mem_stale :
    r ∈ stale wanted reg ↔ ∃ name, reg.running.lookup name = some r ∧ wanted.lookup name ≠ some r.spec := by
  rw [stale, List.mem_map]
  constructor
  · rintro ⟨⟨name, r'⟩, he, rfl⟩
    obtain ⟨hin, hstale⟩ := List.mem_filter.mp he
    exact ⟨name, AList.mem_lookup_iff.mpr hin, by simpa using hstale⟩
  · rintro ⟨name, hr, hstale⟩
    exact ⟨⟨name, r⟩, List.mem_filter.mpr ⟨AList.mem_lookup_iff.mp hr, by simpa using hstale⟩, rfl⟩

section Starting

variable {l : List Entry}

theorem lookup_foldl_absent (h : name ∉ l.map (·.1)) :
    (l.foldl startOne reg).running.lookup name = reg.running.lookup name := by
  induction l generalizing reg with
  | nil => rfl
  | cons e l ih =>
      rw [List.map_cons, List.mem_cons, not_or] at h
      rw [List.foldl_cons, ih h.2]
      exact AList.lookup_insert_ne h.1

theorem lookup_foldl_mem (reg : Registry) (hnodup : (l.map (·.1)).Nodup) {e : Entry} (h : e ∈ l) :
    ∃ g, (l.foldl startOne reg).running.lookup e.1 = some ⟨e.2, g⟩ := by
  induction l generalizing reg with
  | nil => cases h
  | cons e' l ih =>
      obtain ⟨hnew, hnodup⟩ := List.nodup_cons.mp hnodup
      rw [List.foldl_cons]
      rcases List.mem_cons.mp h with rfl | h
      · refine ⟨reg.generation + 1, ?_⟩
        rw [lookup_foldl_absent hnew]
        exact AList.lookup_insert _
      · exact ih _ hnodup h

/-- What was started later has a later generation. -/
theorem lookup_foldl_startOne (h : (l.foldl startOne reg).running.lookup name = some r) :
    reg.running.lookup name = some r ∨ reg.generation < r.generation := by
  induction l generalizing reg with
  | nil => exact .inl h
  | cons e l ih =>
      rcases ih h with hr | hlt
      · by_cases hname : name = e.1
        · subst hname
          rw [startOne, AList.lookup_insert] at hr
          obtain rfl := Option.some.inj hr
          exact .inr (Nat.lt_succ_self _)
        · rw [startOne, AList.lookup_insert_ne hname] at hr
          exact .inl hr
      · exact .inr ((Nat.lt_succ_self _).trans hlt)

theorem generation_foldl_startOne (reg : Registry) (l : List Entry) :
    reg.generation ≤ (l.foldl startOne reg).generation := by
  induction l generalizing reg with
  | nil => exact Nat.le_refl _
  | cons e l ih => exact (Nat.le_succ _).trans (ih (startOne reg e))

theorem cancelled_foldl_startOne (reg : Registry) (l : List Entry) :
    (l.foldl startOne reg).cancelled = reg.cancelled := by
  induction l generalizing reg with
  | nil => rfl
  | cons e l ih => exact ih (startOne reg e)

end Starting

theorem lookup_bringInLine_cases (h : (bringInLine wanted reg).running.lookup name = some r) :
    reg.running.lookup name = some r ∨ reg.generation < r.generation :=
  (lookup_foldl_startOne h).imp (fun hr => (lookup_stop_eq_some.mp hr).1) id

/-- A task that is wanted as it runs goes on. -/
theorem lookup_bringInLine_kept (hr : reg.running.lookup name = some r) (hwanted : wanted.lookup name = some r.spec) :
    (bringInLine wanted reg).running.lookup name = some r := by
  have hstop : (stop wanted reg).running.lookup name = some r := lookup_stop_eq_some.mpr ⟨hr, hwanted⟩
  rw [bringInLine, lookup_foldl_absent, hstop]
  intro hstart
  obtain ⟨e, he, rfl⟩ := List.mem_map.mp hstart
  have hnone := (mem_toStart.mp he).2
  rw [hstop] at hnone
  cases hnone

/-- After a sync exactly the wanted tasks run. -/
theorem lookup_bringInLine :
    ((bringInLine wanted reg).running.lookup name).map (·.spec) = wanted.lookup name := by
  rw [bringInLine]
  by_cases hstart : name ∈ (toStart wanted (stop wanted reg)).map (·.1)
  · obtain ⟨e, he, rfl⟩ := List.mem_map.mp hstart
    obtain ⟨g, hg⟩ := lookup_foldl_mem (stop wanted reg) nodup_toStart he
    rw [hg]
    exact (mem_toStart.mp he).1.symm
  · rw [lookup_foldl_absent hstart]
    cases hr : (stop wanted reg).running.lookup name with
    | some r => exact (lookup_stop_eq_some.mp hr).2.symm
    | none =>
        cases hspec : wanted.lookup name with
        | none => rfl
        | some spec =>
            have hin : (⟨name, spec⟩ : Entry) ∈ toStart wanted (stop wanted reg) := mem_toStart.mpr ⟨hspec, hr⟩
            exact absurd (List.mem_map_of_mem hin) hstart

/-- Every task that was started runs or was cancelled, and none is both. -/
structure Accounted (reg : Registry) : Prop where
  running_le : ∀ name r, reg.running.lookup name = some r → r.generation ≤ reg.generation
  cancelled_le : ∀ g ∈ reg.cancelled, g ≤ reg.generation
  distinct : ∀ name name' r r', reg.running.lookup name = some r → reg.running.lookup name' = some r' →
    r.generation = r'.generation → name = name'
  apart : ∀ name r, reg.running.lookup name = some r → r.generation ∉ reg.cancelled
  all : ∀ g, 0 < g → g ≤ reg.generation →
    g ∈ reg.cancelled ∨ ∃ name r, reg.running.lookup name = some r ∧ r.generation = g

theorem Accounted.stop (h : Accounted reg) (wanted : Table (List Char) TaskSpec) : Accounted (stop wanted reg) where
  running_le name r hr := h.running_le name r (lookup_stop_eq_some.mp hr).1
  cancelled_le g hg := by
    rcases List.mem_append.mp hg with hg | hg
    · exact h.cancelled_le g hg
    · obtain ⟨r, hr, rfl⟩ := List.mem_map.mp hg
      obtain ⟨name, hname, _⟩ := mem_stale.mp hr
      exact h.running_le name r hname
  distinct name name' r r' hr hr' :=
    h.distinct name name' r r' (lookup_stop_eq_some.mp hr).1 (lookup_stop_eq_some.mp hr').1
  apart name r hr hcancelled := by
    obtain ⟨hrunning, hwanted⟩ := lookup_stop_eq_some.mp hr
    rcases List.mem_append.mp hcancelled with hcancelled | hcancelled
    · exact h.apart name r hrunning hcancelled
    · obtain ⟨r', hr', hgeneration⟩ := List.mem_map.mp hcancelled
      obtain ⟨name', hname', hstale⟩ := mem_stale.mp hr'
      obtain rfl := h.distinct name' name r' r hname' hrunning hgeneration
      obtain rfl := Option.some.inj (hname'.symm.trans hrunning)
      exact hstale hwanted
  all g hpos hle := by
    rcases h.all g hpos hle with hcancelled | ⟨name, r, hr, rfl⟩
    · exact .inl (List.mem_append_left _ hcancelled)
    · by_cases hwanted : wanted.lookup name = some r.spec
      · exact .inr ⟨name, r, lookup_stop_eq_some.mpr ⟨hr, hwanted⟩, rfl⟩
      · exact .inl (List.mem_append_right _ (List.mem_map_of_mem (mem_stale.mpr ⟨name, hr, hwanted⟩)))

theorem Accounted.startOne (h : Accounted reg) {e : Entry} (hnew : reg.running.lookup e.1 = none) :
    Accounted (startOne reg e) := by
  have hcases (name : List Char) (r : Running) (hr : (TrunkTasks.startOne reg e).running.lookup name = some r) :
      (name = e.1 ∧ r.generation = reg.generation + 1) ∨ (name ≠ e.1 ∧ reg.running.lookup name = some r) := by
    by_cases hname : name = e.1
    · subst hname
      rw [TrunkTasks.startOne, AList.lookup_insert] at hr
      exact .inl ⟨rfl, (congrArg Running.generation (Option.some.inj hr)).symm⟩
    · rw [TrunkTasks.startOne, AList.lookup_insert_ne hname] at hr
      exact .inr ⟨hname, hr⟩
  constructor
  · intro name r hr
    rcases hcases name r hr with ⟨_, hg⟩ | ⟨_, hr⟩
    · exact hg.le
    · exact (h.running_le name r hr).trans (Nat.le_succ _)
  · intro g hg
    exact (h.cancelled_le g hg).trans (Nat.le_succ _)
  · intro name name' r r' hr hr' hgeneration
    rcases hcases name r hr with ⟨rfl, hg⟩ | ⟨_, hr⟩
    · rcases hcases name' r' hr' with ⟨rfl, _⟩ | ⟨_, hr'⟩
      · rfl
      · have hle := h.running_le name' r' hr'
        omega
    · rcases hcases name' r' hr' with ⟨rfl, hg⟩ | ⟨_, hr'⟩
      · have hle := h.running_le name r hr
        omega
      · exact h.distinct name name' r r' hr hr' hgeneration
  · intro name r hr hcancelled
    rcases hcases name r hr with ⟨_, hg⟩ | ⟨_, hr⟩
    · have hle := h.cancelled_le r.generation hcancelled
      omega
    · exact h.apart name r hr hcancelled
  · intro g hpos hle
    by_cases hg : g = reg.generation + 1
    · exact .inr ⟨e.1, ⟨e.2, reg.generation + 1⟩, AList.lookup_insert _, hg.symm⟩
    · have hle' : g ≤ reg.generation := Nat.le_of_lt_succ (lt_of_le_of_ne hle hg)
      rcases h.all g hpos hle' with hcancelled | ⟨name, r, hr, hgeneration⟩
      · exact .inl hcancelled
      · refine .inr ⟨name, r, ?_, hgeneration⟩
        have hname : name ≠ e.1 := by
          rintro rfl
          rw [hnew] at hr
          cases hr
        rw [TrunkTasks.startOne, AList.lookup_insert_ne hname]
        exact hr

theorem Accounted.foldl (h : Accounted reg) {l : List Entry} (hnodup : (l.map (·.1)).Nodup)
    (hnew : ∀ e ∈ l, reg.running.lookup e.1 = none) : Accounted (l.foldl TrunkTasks.startOne reg) := by
  induction l generalizing reg with
  | nil => exact h
  | cons e l ih =>
      obtain ⟨hnotin, hnodup⟩ := List.nodup_cons.mp hnodup
      refine ih (h.startOne (hnew e List.mem_cons_self)) hnodup fun e' he' => ?_
      have hne : e'.1 ≠ e.1 := by
        intro heq
        have hin : e'.1 ∈ l.map (·.1) := List.mem_map_of_mem he'
        rw [heq] at hin
        exact hnotin hin
      rw [TrunkTasks.startOne, AList.lookup_insert_ne hne]
      exact hnew e' (List.mem_cons_of_mem e he')

theorem Accounted.bringInLine (h : Accounted reg) (wanted : Table (List Char) TaskSpec) :
    Accounted (bringInLine wanted reg) :=
  (h.stop wanted).foldl nodup_toStart fun _ he => (mem_toStart.mp he).2

end NixiSbc.TrunkTasks
