import NixiSbc.StateRuns
import NixiSbc.TrunkConvergence
import NixiSbc.TrunkTasks

namespace NixiSbc.TrunkTaskSync

open KeyedTable StateRuns Hydration TrunkTasks
open Trunks (TrunkId)

inductive Edit
  | addTrunk (config : TrunkConfig)
  | updateTrunkByName (name : List Char) (config : TrunkConfig)
  | enableTrunk (id : TrunkId)
  | disableTrunk (id : TrunkId)
  | removeByName (name : List Char)

def enableTrunk (id : TrunkId) (l : TrunkTable) : TrunkTable :=
  l.map fun t => if t.id = id then { t with enabled := true } else t

def Edit.apply (l : TrunkTable) : Edit → TrunkTable
  | .addTrunk config => Hydration.addTrunk l config
  | .updateTrunkByName name config => Hydration.updateTrunkByName l name config
  | .enableTrunk id => TrunkTaskSync.enableTrunk id l
  | .disableTrunk id => TrunkApplications.disableTrunk id l
  | .removeByName name => TrunkApplications.removeByName name l

/-- A change of the table is followed by a sync, which reads the table before it takes the
lock; snapshots are numbered in the order in which they are taken. -/
inductive Phase
  | idle
  | edited
  | holding (wanted : Table (List Char) TaskSpec) (ticket : Nat)
  | done

inductive Act
  | edit (e : Edit)
  | snapshot
  | lockedUpdate

structure Cfg (ι : Type) where
  table : TrunkTable
  reg : Registry
  taken : Nat
  applied : Nat
  phase : ι → Phase

def start (ι : Type) (table : TrunkTable) (reg : Registry) : Cfg ι := ⟨table, reg, 0, 0, fun _ => .idle⟩

section

variable (parse : List Char → Option Stun.SocketAddr) {ι : Type}

def step [DecidableEq ι] (c : Cfg ι) : ι × Act → Cfg ι
  | (i, .edit e) =>
      match c.phase i with
      | .idle | .edited => { c with table := e.apply c.table, phase := Function.update c.phase i .edited }
      | _ => c
  | (i, .snapshot) =>
      match c.phase i with
      | .edited =>
          { c with
            taken := c.taken + 1
            phase := Function.update c.phase i (.holding (desired parse c.table) (c.taken + 1)) }
      | _ => c
  | (i, .lockedUpdate) =>
      match c.phase i with
      | .holding wanted ticket =>
          { c with
            reg := bringInLine wanted c.reg
            applied := ticket
            phase := Function.update c.phase i .done }
      | _ => c

/-- No snapshot is applied after a newer one. -/
def InOrder (c : Cfg ι) : ι × Act → Prop
  | (i, .lockedUpdate) => ∀ wanted ticket, c.phase i = .holding wanted ticket → c.applied < ticket
  | _ => True

/-- The tasks are those of the enabled UDP trunks, and every other one was cancelled. -/
structure InLine (table : TrunkTable) (reg : Registry) : Prop where
  runs : ∀ name r, reg.running.lookup name = some r →
    ∃ t ∈ table, t.enabled = true ∧ t.transport = .udp ∧ t.name = name ∧ TaskSpec.fromConfig parse t = r.spec
  served : ∀ t ∈ table, t.enabled = true → t.transport = .udp → ∃ r, reg.running.lookup t.name = some r
  rest : ∀ g, 0 < g → g ≤ reg.generation →
    g ∈ reg.cancelled ∨ ∃ name r, reg.running.lookup name = some r ∧ r.generation = g

structure Inv (c : Cfg ι) : Prop where
  accounted : Accounted c.reg
  applied_le : c.applied ≤ c.taken
  ticket_le : ∀ i wanted ticket, c.phase i = .holding wanted ticket → ticket ≤ c.taken
  held : c.applied = c.taken ∨ ∃ i wanted, c.phase i = .holding wanted c.taken
  newest : (∀ i, c.phase i ≠ .edited) →
    ∀ i wanted, c.phase i = .holding wanted c.taken → wanted = desired parse c.table
  current : (∀ i, c.phase i ≠ .edited) → c.applied = c.taken →
    ∀ name, (c.reg.running.lookup name).map (·.spec) = (desired parse c.table).lookup name

end

variable {parse : List Char → Option Stun.SocketAddr} {table : TrunkTable} {reg : Registry} {name : List Char}
  {spec : TaskSpec}

section Desired

variable {wanted : Table (List Char) TaskSpec} {l : List TrunkConfig}

theorem lookup_foldl_insert_some
    (h : (l.foldl (fun wanted t => wanted.insert t.name (.fromConfig parse t)) wanted).lookup name = some spec) :
    wanted.lookup name = some spec ∨ ∃ t ∈ l, t.name = name ∧ TaskSpec.fromConfig parse t = spec := by
  induction l generalizing wanted with
  | nil => exact .inl h
  | cons t l ih =>
      rcases ih h with hfirst | ⟨t', ht', hname⟩
      · rw [lookup_insert_eq] at hfirst
        split at hfirst
        next heq => exact .inr ⟨t, List.mem_cons_self, heq.symm, Option.some.inj hfirst⟩
        next => exact .inl hfirst
      · exact .inr ⟨t', List.mem_cons_of_mem t ht', hname⟩

theorem lookup_foldl_insert_isSome (h : (wanted.lookup name).isSome ∨ ∃ t ∈ l, t.name = name) :
    ((l.foldl (fun wanted t => wanted.insert t.name (.fromConfig parse t)) wanted).lookup name).isSome := by
  induction l generalizing wanted with
  | nil => exact h.resolve_right fun ⟨_, ht, _⟩ => List.not_mem_nil ht
  | cons t l ih =>
      refine ih ?_
      by_cases hname : t.name = name
      · subst hname
        left
        rw [AList.lookup_insert]
        rfl
      · rw [AList.lookup_insert_ne fun heq => hname heq.symm]
        refine h.imp_right ?_
        rintro ⟨t', ht', heq⟩
        rcases List.mem_cons.mp ht' with rfl | ht'
        · exact absurd heq hname
        · exact ⟨t', ht', heq⟩

theorem desired_some (h : (desired parse table).lookup name = some spec) :
    ∃ t ∈ table, t.enabled = true ∧ t.transport = .udp ∧ t.name = name ∧ TaskSpec.fromConfig parse t = spec := by
  rcases lookup_foldl_insert_some h with hempty | ⟨t, ht, hname, hspec⟩
  · rw [AList.lookup_empty] at hempty
    cases hempty
  · obtain ⟨hin, hkept⟩ := List.mem_filter.mp ht
    have hboth : t.enabled = true ∧ t.transport = .udp := by simpa using hkept
    exact ⟨t, hin, hboth.1, hboth.2, hname, hspec⟩

theorem desired_isSome (parse : List Char → Option Stun.SocketAddr) {t : TrunkConfig} (ht : t ∈ table)
    (henabled : t.enabled = true) (hudp : t.transport = .udp) :
    ((desired parse table).lookup t.name).isSome :=
  lookup_foldl_insert_isSome (.inr ⟨t, List.mem_filter.mpr ⟨ht, by simp [henabled, hudp]⟩, rfl⟩)

end Desired

theorem inLine_of_lookup (hacc : Accounted reg)
    (h : ∀ name, (reg.running.lookup name).map (·.spec) = (desired parse table).lookup name) :
    InLine parse table reg := by
  refine ⟨fun name r hr => ?_, fun t ht henabled hudp => ?_, hacc.all⟩
  · have hname := h name
    rw [hr] at hname
    exact desired_some hname.symm
  · have hsome := desired_isSome parse ht henabled hudp
    rw [← h t.name, Option.isSome_map] at hsome
    exact Option.isSome_iff_exists.mp hsome

section Runs

variable {ι : Type} [DecidableEq ι] {c : Cfg ι}

omit [DecidableEq ι] in
theorem held_other {i : ι} (h : c.applied = c.taken ∨ ∃ j wanted, c.phase j = .holding wanted c.taken)
    (hi : ∀ wanted, c.phase i ≠ .holding wanted c.taken) :
    c.applied = c.taken ∨ ∃ j wanted, j ≠ i ∧ c.phase j = .holding wanted c.taken := by
  refine h.imp_right ?_
  rintro ⟨j, wanted, hj⟩
  refine ⟨j, wanted, ?_, hj⟩
  rintro rfl
  exact hi wanted hj

theorem update_cases {phase : ι → Phase} {p q : Phase} {i j : ι} (h : Function.update phase i p j = q) :
    (j = i ∧ p = q) ∨ (j ≠ i ∧ phase j = q) := by
  by_cases hj : j = i
  · subst hj
    rw [Function.update_self] at h
    exact .inl ⟨rfl, h⟩
  · rw [Function.update_of_ne hj] at h
    exact .inr ⟨hj, h⟩

theorem update_eq {phase : ι → Phase} {p q : Phase} {i j : ι} (h : Function.update phase i p j = q) (hp : p ≠ q) :
    j ≠ i ∧ phase j = q :=
  (update_cases h).resolve_left fun hself => hp hself.2

theorem Inv.edited (h : Inv parse c) {i : ι} (hi : ∀ wanted ticket, c.phase i ≠ .holding wanted ticket)
    (l : TrunkTable) : Inv parse { c with table := l, phase := Function.update c.phase i .edited } where
  accounted := h.accounted
  applied_le := h.applied_le
  ticket_le j wanted ticket hj := h.ticket_le j wanted ticket (update_eq hj nofun).2
  held := by
    refine (held_other h.held fun wanted => hi wanted c.taken).imp_right ?_
    rintro ⟨j, wanted, hji, hj⟩
    exact ⟨j, wanted, (Function.update_of_ne hji _ _).trans hj⟩
  newest hnone := absurd (Function.update_self i _ _) (hnone i)
  current hnone := absurd (Function.update_self i _ _) (hnone i)

theorem Inv.snapshot (h : Inv parse c) {i : ι} :
    Inv parse { c with
      taken := c.taken + 1
      phase := Function.update c.phase i (.holding (desired parse c.table) (c.taken + 1)) } where
  accounted := h.accounted
  applied_le := h.applied_le.trans (Nat.le_succ _)
  ticket_le j wanted ticket hj := by
    rcases update_cases hj with ⟨_, heq⟩ | ⟨_, hj⟩
    · cases heq
      exact Nat.le_refl _
    · exact (h.ticket_le j wanted ticket hj).trans (Nat.le_succ _)
  held := .inr ⟨i, _, Function.update_self _ _ _⟩
  newest _ j wanted hj := by
    rcases update_cases hj with ⟨_, heq⟩ | ⟨_, hj⟩
    · cases heq
      rfl
    · have hle := h.ticket_le j wanted _ hj
      dsimp only at hle
      omega
  current _ heq := by
    have hle := h.applied_le
    dsimp only at heq
    omega

theorem Inv.lockedUpdate (h : Inv parse c) {i : ι} {wanted : Table (List Char) TaskSpec} {ticket : Nat}
    (hi : c.phase i = .holding wanted ticket) (hnew : c.applied < ticket) :
    Inv parse { c with
      reg := bringInLine wanted c.reg
      applied := ticket
      phase := Function.update c.phase i .done } where
  accounted := h.accounted.bringInLine wanted
  applied_le := h.ticket_le i wanted ticket hi
  ticket_le j wanted' ticket' hj := h.ticket_le j wanted' ticket' (update_eq hj nofun).2
  held := by
    by_cases hlast : ticket = c.taken
    · exact .inl hlast
    · refine .inr ?_
      have hlt : ticket < c.taken := lt_of_le_of_ne (h.ticket_le i wanted ticket hi) hlast
      obtain heq | ⟨j, wanted', hji, hj⟩ := held_other h.held (i := i) fun wanted' hi' => by
        rw [hi] at hi'
        cases hi'
        exact hlast rfl
      · omega
      · exact ⟨j, wanted', (Function.update_of_ne hji _ _).trans hj⟩
  newest hnone j wanted' hj := by
    refine h.newest (fun k hk => hnone k ?_) j wanted' (update_eq hj nofun).2
    exact (Function.update_of_ne (fun hki => by rw [hki, hi] at hk; cases hk) _ _).trans hk
  current hnone heq name := by
    have hbefore (k : ι) (hk : c.phase k = .edited) : False :=
      hnone k ((Function.update_of_ne (fun hki => by rw [hki, hi] at hk; cases hk) _ _).trans hk)
    dsimp only at heq
    subst heq
    rw [← h.newest hbefore i wanted hi]
    exact lookup_bringInLine

theorem Inv.step (h : Inv parse c) {a : ι × Act} (ha : InOrder c a) : Inv parse (step parse c a) := by
  obtain ⟨i, e | _ | _⟩ := a
  · rw [TrunkTaskSync.step]
    split
    next hidle => exact h.edited (fun _ _ hi => by rw [hidle] at hi; cases hi) _
    next hedited => exact h.edited (fun _ _ hi => by rw [hedited] at hi; cases hi) _
    next => exact h
  · rw [TrunkTaskSync.step]
    split
    next => exact h.snapshot
    next => exact h
  · rw [TrunkTaskSync.step]
    split
    next wanted ticket hi => exact h.lockedUpdate hi (ha wanted ticket hi)
    next => exact h

end Runs

def Finished : Phase → Prop
  | .idle | .done => True
  | _ => False

/-- Once every sync of an orderly run has finished, the tasks are those of the table. -/
theorem tasks_converge (parse : List Char → Option Stun.SocketAddr) {ι : Type} [DecidableEq ι] (table : TrunkTable)
    (reg : Registry) (hacc : Accounted reg)
    (hsynced : ∀ name, (reg.running.lookup name).map (·.spec) = (desired parse table).lookup name)
    (actions : List (ι × Act)) (hrun : Throughout (step parse) InOrder (start ι table reg) actions)
    (hfinished : ∀ i, Finished ((actions.foldl (step parse) (start ι table reg)).phase i)) :
    InLine parse (actions.foldl (step parse) (start ι table reg)).table
      (actions.foldl (step parse) (start ι table reg)).reg := by
  have hstart : Inv parse (start ι table reg) :=
    ⟨hacc, Nat.le_refl _, nofun, .inl rfl, nofun, fun _ _ => hsynced⟩
  have hstep (c : Cfg ι) (a : ι × Act) (hc : Inv parse c) (ha : InOrder c a) : Inv parse (step parse c a) :=
    hc.step ha
  have hinv : Inv parse (actions.foldl (step parse) (start ι table reg)) :=
    invariant_run (I := Inv parse) hstep hstart hrun
  have hphase (i : ι) {phase : Phase} (hp : ¬Finished phase) :
      (actions.foldl (step parse) (start ι table reg)).phase i ≠ phase := by
    rintro rfl
    exact hp (hfinished i)
  refine inLine_of_lookup hinv.accounted (hinv.current (fun i => hphase i id) ?_)
  refine hinv.held.resolve_right ?_
  rintro ⟨i, wanted, hi⟩
  exact hphase i id hi

def noAddress : List Char → Option Stun.SocketAddr := fun _ => none

def gateway : TrunkConfig :=
  trunkRowToConfig HydrationFailures.plainEnv (fun _ => 1) (TrunkConvergence.gateway true) []

def emptyRegistry : Registry := ⟨∅, 0, []⟩

theorem lookup_emptyRegistry (name : List Char) : emptyRegistry.running.lookup name = none := AList.lookup_empty name

theorem accounted_emptyRegistry : Accounted emptyRegistry where
  running_le name r hr := by
    rw [lookup_emptyRegistry] at hr
    cases hr
  cancelled_le g hg := absurd hg List.not_mem_nil
  distinct name _ r _ hr := by
    rw [lookup_emptyRegistry] at hr
    cases hr
  apart name r hr := by
    rw [lookup_emptyRegistry] at hr
    cases hr
  all g hpos hle := absurd hpos (Nat.not_lt.mpr hle)

def synced (actions : List (Bool × Act)) : Cfg Bool := actions.foldl (step noAddress) (start Bool [] emptyRegistry)

/-- The trunk is added by one request and disabled by another. -/
def oneAfterTheOther : List (Bool × Act) :=
  [(false, .edit (.addTrunk gateway)), (false, .snapshot), (false, .lockedUpdate), (true, .edit (.disableTrunk 1)),
    (true, .snapshot), (true, .lockedUpdate)]

theorem tasks_converge_oneAfterTheOther :
    InLine noAddress (synced oneAfterTheOther).table (synced oneAfterTheOther).reg := by
  refine tasks_converge noAddress [] emptyRegistry accounted_emptyRegistry (fun _ => rfl) oneAfterTheOther ?_ ?_
  · refine ⟨trivial, trivial, ?_, trivial, trivial, ?_, trivial⟩
    · rintro wanted ticket ⟨⟩
      decide
    · rintro wanted ticket ⟨⟩
      decide
  · intro i
    cases i <;> trivial

/-- The sync of the request that disables overtakes the other one between its two steps. -/
def overtaken : List (Bool × Act) :=
  [(false, .edit (.addTrunk gateway)), (false, .snapshot), (true, .edit (.disableTrunk 1)), (true, .snapshot),
    (true, .lockedUpdate), (false, .lockedUpdate)]

theorem overtaken_sync_diverges :
    (∀ i, Finished ((synced overtaken).phase i)) ∧
      ¬InLine noAddress (synced overtaken).table (synced overtaken).reg := by
  refine ⟨fun i => by cases i <;> trivial, ?_⟩
  intro h
  have hrunning : (synced overtaken).reg.running.lookup "gw".toList = some ⟨.fromConfig noAddress gateway, 1⟩ := rfl
  have htable : (synced overtaken).table = [{ gateway with enabled := false }] := rfl
  obtain ⟨t, ht, henabled, _⟩ := h.runs _ _ hrunning
  rw [htable, List.mem_singleton] at ht
  subst ht
  cases henabled

end NixiSbc.TrunkTaskSync
