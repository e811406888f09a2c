import NixiSbc.B2bua
import NixiSbc.StateRuns
import Mathlib.Data.List.Perm.Basic

namespace NixiSbc.TrunkAccounting

open Stun Trunks KeyedTable StateRuns
open B2bua (B2buaCall Transport)

/-- What a started `count_call_on_trunk` has still to do: the trunk to release,
then the one to count the call on. -/
structure Task where
  release : Option (List Char)
  claim : Option (List Char)
  deriving DecidableEq

def Task.finished (t : Task) : Bool := t.release = none ∧ t.claim = none

/-- The trunks, the live calls, and the started `count_call_on_trunk` calls
under numbers of their own. -/
structure System where
  manager : TrunkManager
  calls : Table (List Char) B2buaCall
  tasks : Table Nat Task

def System.new : System := ⟨.new, ∅, ∅⟩

/-- The update under the lock of the call map. The task has nothing left to do
when the call is gone or is counted there already. -/
def startCount (s : System) (n : Nat) (uuid : List Char) (trunk : Option (List Char)) : System :=
  match s.tasks.lookup n, s.calls.lookup uuid with
  | none, some call =>
      if call.trunkCounted = trunk then s
      else
        { s with
          calls := modify uuid (fun call => { call with trunkCounted := trunk }) s.calls
          tasks := s.tasks.insert n ⟨call.trunkCounted, trunk⟩ }
  | _, _ => s

/-- The next counter update of a task. -/
def advance (s : System) (n : Nat) : System :=
  match s.tasks.lookup n with
  | some ⟨some prev, _⟩ =>
      { s with
        manager := (updateStateByName s.manager prev decrementCalls).2
        tasks := modify n (fun t => { t with release := none }) s.tasks }
  | some ⟨none, some name⟩ =>
      { s with
        manager := (updateStateByName s.manager name incrementCalls).2
        tasks := modify n (fun t => { t with claim := none }) s.tasks }
  | _ => s

inductive Op
  | startCount (n : Nat) (uuid : List Char) (trunk : Option (List Char))
  | advance (n : Nat)
  | addTrunk (config : TrunkConfig)
  | updateTrunkByName (name : List Char) (newConfig : TrunkConfig)
  | removeByName (name : List Char)
  | newCall (call : B2buaCall)
  | endCall (uuid : List Char)
  | reorder (trunks : Table TrunkId TrunkConfig)

/-- A new call is counted nowhere. The last operation stands for the order in
which the trunk map is iterated, which may be another one at any time. -/
def step (s : System) : Op → System
  | .startCount n uuid trunk => startCount s n uuid trunk
  | .advance n => advance s n
  | .addTrunk config => { s with manager := addTrunk s.manager config }
  | .updateTrunkByName name newConfig =>
      { s with manager := (updateTrunkByName s.manager name newConfig).2 }
  | .removeByName name => { s with manager := (removeByName s.manager name).2 }
  | .newCall call =>
      if s.calls.lookup call.uuid = none ∧ call.trunkCounted = none then
        { s with calls := s.calls.insert call.uuid call }
      else s
  | .endCall uuid => { s with calls := s.calls.erase uuid }
  | .reorder trunks =>
      if trunks.entries.Perm s.manager.trunks.entries then
        { s with manager := { s.manager with trunks := trunks } }
      else s

/-- How many live calls are counted on the trunk of this name. -/
def counted (s : System) (name : List Char) : Nat :=
  count (fun call => call.trunkCounted = some name) s.calls

/-- How many started updates have still to release, or to count, a call. -/
def releasing (s : System) (name : List Char) : Nat := count (fun t => t.release = some name) s.tasks

def claiming (s : System) (name : List Char) : Nat := count (fun t => t.claim = some name) s.tasks

/-- The counter is right once what is under way is done. -/
def Settles (s : System) (name : List Char) (active : UInt32) : Prop :=
  active.toNat + claiming s name = counted s name + releasing s name

/-- The trunks have names of their own and a counter each, which settles. -/
structure Balanced (s : System) : Prop where
  keyed : ∀ id c, s.manager.trunks.lookup id = some c → c.id = id
  named : ∀ id id' c c', s.manager.trunks.lookup id = some c →
    s.manager.trunks.lookup id' = some c' → c.name = c'.name → id = id'
  settles : ∀ id c, s.manager.trunks.lookup id = some c →
    ∃ st, s.manager.states.lookup id = some st ∧ Settles s c.name st.activeCalls

/-- The operations that keep the balance. A counter is decreased only above
zero and increased only below its maximum, a trunk gets a name only when no
other has it and its counter settles under it, and a call is released before
it ends. -/
def Allowed (s : System) : Op → Prop
  | .advance n =>
      (∀ prev claim, s.tasks.lookup n = some ⟨some prev, claim⟩ →
        ∀ st ∈ stateByName s.manager prev, 0 < st.activeCalls.toNat) ∧
      (∀ name, s.tasks.lookup n = some ⟨none, some name⟩ →
        ∀ st ∈ stateByName s.manager name, st.activeCalls.toNat + 1 < 2 ^ 32)
  | .addTrunk config =>
      (∀ id c, s.manager.trunks.lookup id = some c → c.name = config.name → id = config.id) ∧
        Settles s config.name 0
  | .updateTrunkByName name newConfig =>
      ∀ t ∈ findByName s.manager name, t.name ≠ newConfig.name →
        (∀ id c, s.manager.trunks.lookup id = some c → c.name ≠ newConfig.name) ∧
        ∀ st ∈ s.manager.states.lookup t.id, Settles s newConfig.name st.activeCalls
  | .endCall uuid => ∀ call ∈ s.calls.lookup uuid, call.trunkCounted = none
  | _ => True

theorem findByName_eq_some {m : TrunkManager} {name : List Char} {t : TrunkConfig}
    (h : findByName m name = some t) : t.name = name ∧ ∃ id, m.trunks.lookup id = some t := by
  obtain ⟨⟨id, c⟩, hfind, rfl⟩ := Option.map_eq_some_iff.mp h
  have hname := List.find?_some hfind
  refine ⟨of_decide_eq_true hname, id, ?_⟩
  exact AList.mem_lookup_iff.mpr (List.mem_of_find?_eq_some hfind)

theorem findByName_eq_none {m : TrunkManager} {name : List Char} (h : findByName m name = none)
    {id : TrunkId} {c : TrunkConfig} (hc : m.trunks.lookup id = some c) : c.name ≠ name := by
  intro hname
  have hnone := List.find?_eq_none.mp (Option.map_eq_none_iff.mp h) ⟨id, c⟩
    (AList.mem_lookup_iff.mp hc)
  exact hnone (decide_eq_true hname)

/-- What a change of the counter by name does: the trunks stay, and the one of
that name gets the new state. -/
theorem updateStateByName_spec {s : System} (h : Balanced s) (name : List Char)
    (f : TrunkState → TrunkState) :
    (updateStateByName s.manager name f).2.trunks = s.manager.trunks ∧
    ∀ id c, s.manager.trunks.lookup id = some c →
      (updateStateByName s.manager name f).2.states.lookup id =
        if c.name = name then (s.manager.states.lookup id).map f else s.manager.states.lookup id := by
  rw [updateStateByName]
  cases hfind : findByName s.manager name with
  | none =>
      refine ⟨rfl, fun id c hc => ?_⟩
      rw [if_neg (findByName_eq_none hfind hc)]
  | some t =>
      obtain ⟨hname, id', ht⟩ := findByName_eq_some hfind
      have hid := h.keyed id' t ht
      subst hid
      refine ⟨rfl, fun id c hc => ?_⟩
      change (modify t.id f s.manager.states).lookup id = _
      split
      next hcn =>
        rw [h.named id t.id c t hc ht (hcn.trans hname.symm), lookup_modify_self]
      next hcn =>
        have hne : id ≠ t.id := by
          intro hid
          rw [hid, ht] at hc
          cases hc
          exact hcn hname
        exact lookup_modify_ne hne f _

theorem stateByName_of_lookup {s : System} (h : Balanced s) {id : TrunkId} {c : TrunkConfig}
    (hc : s.manager.trunks.lookup id = some c) :
    stateByName s.manager c.name = s.manager.states.lookup id := by
  rw [stateByName]
  cases hfind : findByName s.manager c.name with
  | none => exact absurd rfl (findByName_eq_none hfind hc)
  | some t =>
      obtain ⟨hname, id', ht⟩ := findByName_eq_some hfind
      have hid := h.keyed id' t ht
      subst hid
      rw [h.named id t.id c t hc ht hname.symm]
      rfl

/-- A system with the same trunks is balanced when its counters settle. -/
theorem Balanced.of_trunks {s s' : System} (h : Balanced s)
    (htrunks : s'.manager.trunks = s.manager.trunks)
    (hsettles : ∀ id c st, s.manager.trunks.lookup id = some c →
      s.manager.states.lookup id = some st → Settles s c.name st.activeCalls →
      ∃ st', s'.manager.states.lookup id = some st' ∧ Settles s' c.name st'.activeCalls) :
    Balanced s' where
  keyed id c hc := h.keyed id c (htrunks ▸ hc)
  named id id' c c' hc hc' := h.named id id' c c' (htrunks ▸ hc) (htrunks ▸ hc')
  settles id c hc := by
    rw [htrunks] at hc
    obtain ⟨st, hst, hs⟩ := h.settles id c hc
    exact hsettles id c st hc hst hs

theorem decrementCalls_toNat {st : TrunkState} (h : 0 < st.activeCalls.toNat) :
    (decrementCalls st).activeCalls.toNat + 1 = st.activeCalls.toNat := by
  have hpos : st.activeCalls > 0 := UInt32.lt_iff_toNat_lt.mpr h
  have hle : (1 : UInt32) ≤ st.activeCalls := UInt32.le_iff_toNat_le.mpr h
  rw [decrementCalls, if_pos hpos]
  change (st.activeCalls - 1).toNat + 1 = _
  rw [UInt32.toNat_sub_of_le _ _ hle]
  exact Nat.sub_add_cancel h

theorem incrementCalls_toNat {st : TrunkState} (h : st.activeCalls.toNat + 1 < 2 ^ 32) :
    (incrementCalls st).activeCalls.toNat = st.activeCalls.toNat + 1 := by
  change (st.activeCalls + 1).toNat = _
  rw [UInt32.toNat_add]
  exact Nat.mod_eq_of_lt h

/-- One if the task has still to release a call from the trunk, or to count it
there. -/
def Task.toRelease (t : Task) (name : List Char) : Nat := (decide (t.release = some name)).toNat

def Task.toClaim (t : Task) (name : List Char) : Nat := (decide (t.claim = some name)).toNat

/-- A task that changes the counter of one trunk by what it then has less to do
keeps the balance. -/
theorem balanced_update {s : System} (h : Balanced s) {n : Nat} {t : Task} (f : Task → Task)
    (name : List Char) (g : TrunkState → TrunkState) (ht : s.tasks.lookup n = some t)
    (hg : ∀ id c st, s.manager.trunks.lookup id = some c → s.manager.states.lookup id = some st →
      (if c.name = name then g st else st).activeCalls.toNat + (f t).toClaim c.name +
        t.toRelease c.name = st.activeCalls.toNat + t.toClaim c.name + (f t).toRelease c.name) :
    Balanced { s with
      manager := (updateStateByName s.manager name g).2
      tasks := modify n f s.tasks } := by
  obtain ⟨htrunks, hstates⟩ := updateStateByName_spec h name g
  refine h.of_trunks htrunks fun id c st hc hst hs => ⟨if c.name = name then g st else st, ?_, ?_⟩
  · rw [hstates id c hc, hst]
    split
    next => rfl
    next => rfl
  · have hrel := count_modify (fun t : Task => decide (t.release = some c.name)) f ht
    have hclaim := count_modify (fun t : Task => decide (t.claim = some c.name)) f ht
    have hactive := hg id c st hc hst
    simp only [Settles, Task.toRelease, Task.toClaim, releasing, claiming, counted] at *
    omega

theorem balanced_advance {s : System} (h : Balanced s) (n : Nat) (hop : Allowed s (.advance n)) :
    Balanced (advance s n) := by
  obtain ⟨hpos, hmax⟩ := hop
  rw [advance]
  split
  next prev claim ht =>
    refine balanced_update h _ prev decrementCalls ht fun id c st hc hst => ?_
    by_cases hname : c.name = prev
    · have hst' : st ∈ stateByName s.manager prev := by
        rw [← hname, stateByName_of_lookup h hc]
        exact hst
      have hdec := decrementCalls_toNat (hpos prev claim ht st hst')
      simp only [hname, if_true, Task.toRelease, Task.toClaim, decide_true, Bool.toNat_true,
        reduceCtorEq, decide_false, Bool.toNat_false]
      omega
    · have hne : ¬ some prev = some c.name := fun he => hname (Option.some.inj he).symm
      simp only [hname, if_false, Task.toRelease, Task.toClaim, decide_eq_false hne, reduceCtorEq,
        decide_false]
  next name ht =>
    refine balanced_update h _ name incrementCalls ht fun id c st hc hst => ?_
    by_cases hname : c.name = name
    · have hst' : st ∈ stateByName s.manager name := by
        rw [← hname, stateByName_of_lookup h hc]
        exact hst
      have hinc := incrementCalls_toNat (hmax name ht st hst')
      simp only [hname, if_true, Task.toRelease, Task.toClaim, decide_true, Bool.toNat_true,
        reduceCtorEq, decide_false, Bool.toNat_false]
      omega
    · have hne : ¬ some name = some c.name := fun he => hname (Option.some.inj he).symm
      simp only [hname, if_false, Task.toRelease, Task.toClaim, decide_eq_false hne, reduceCtorEq,
        decide_false]
  next => exact h

theorem balanced_startCount {s : System} (h : Balanced s) (n : Nat) (uuid : List Char)
    (trunk : Option (List Char)) : Balanced (startCount s n uuid trunk) := by
  rw [startCount]
  split
  next call hn hcall =>
    split
    next => exact h
    next =>
      refine h.of_trunks rfl fun id c st hc hst hs => ⟨st, hst, ?_⟩
      have hcount := count_modify (fun call : B2buaCall => decide (call.trunkCounted = some c.name))
        (fun call => { call with trunkCounted := trunk }) hcall
      have hrel := count_insert_new (fun t : Task => decide (t.release = some c.name))
        ⟨call.trunkCounted, trunk⟩ hn
      have hclaim := count_insert_new (fun t : Task => decide (t.claim = some c.name))
        ⟨call.trunkCounted, trunk⟩ hn
      simp only [Settles, releasing, claiming, counted] at *
      omega
  next => exact h

/-- A trunk under a name that no other has, with a counter that settles. -/
theorem balanced_insert {s : System} (h : Balanced s) (config : TrunkConfig) {m : TrunkManager}
    (htrunks : m.trunks = s.manager.trunks.insert config.id config)
    (hname : ∀ id c, s.manager.trunks.lookup id = some c → c.name = config.name → id = config.id)
    (hown : ∃ st, m.states.lookup config.id = some st ∧ Settles s config.name st.activeCalls)
    (hothers : ∀ id st, id ≠ config.id → s.manager.states.lookup id = some st →
      ∃ st', m.states.lookup id = some st' ∧ st'.activeCalls = st.activeCalls) :
    Balanced { s with manager := m } := by
  have hlookup {id : TrunkId} {c : TrunkConfig} (hc : m.trunks.lookup id = some c) :
      (id = config.id ∧ c = config) ∨ (id ≠ config.id ∧ s.manager.trunks.lookup id = some c) := by
    rw [htrunks] at hc
    by_cases hid : id = config.id
    · subst hid
      rw [AList.lookup_insert] at hc
      exact .inl ⟨rfl, (Option.some.inj hc).symm⟩
    · rw [AList.lookup_insert_ne hid] at hc
      exact .inr ⟨hid, hc⟩
  refine ⟨fun id c hc => ?_, fun id id' c c' hc hc' heq => ?_, fun id c hc => ?_⟩
  · rcases hlookup hc with ⟨rfl, rfl⟩ | ⟨-, hold⟩
    · rfl
    · exact h.keyed id c hold
  · rcases hlookup hc with ⟨rfl, rfl⟩ | ⟨hne, hold⟩
    · rcases hlookup hc' with ⟨rfl, rfl⟩ | ⟨hne', hold'⟩
      · rfl
      · exact absurd (hname id' c' hold' heq.symm) hne'
    · rcases hlookup hc' with ⟨rfl, rfl⟩ | ⟨hne', hold'⟩
      · exact absurd (hname id c hold heq) hne
      · exact h.named id id' c c' hold hold' heq
  · rcases hlookup hc with ⟨rfl, rfl⟩ | ⟨hne, hold⟩
    · exact hown
    · obtain ⟨st, hst, hs⟩ := h.settles id c hold
      obtain ⟨st', hst', hactive⟩ := hothers id st hne hst
      exact ⟨st', hst', hactive ▸ hs⟩

theorem balanced_addTrunk {s : System} (h : Balanced s) (config : TrunkConfig)
    (hop : Allowed s (.addTrunk config)) : Balanced (step s (.addTrunk config)) := by
  refine balanced_insert h config rfl hop.1 ⟨.new config.id, AList.lookup_insert _, hop.2⟩ ?_
  intro id st hne hst
  exact ⟨st, (AList.lookup_insert_ne hne).trans hst, rfl⟩

/-- An update puts a configuration in place, and may only clear the cooldowns
of the state. -/
theorem updateTrunkByName_spec {m : TrunkManager} {name : List Char} {existing : TrunkConfig}
    (hfind : findByName m name = some existing) (newConfig : TrunkConfig) :
    ∃ config, config.id = existing.id ∧ config.name = newConfig.name ∧
      (updateTrunkByName m name newConfig).2.trunks = m.trunks.insert config.id config ∧
      ∀ id st, m.states.lookup id = some st →
        ∃ st', (updateTrunkByName m name newConfig).2.states.lookup id = some st' ∧
          st'.activeCalls = st.activeCalls := by
  refine ⟨{ newConfig with
    id := existing.id
    resolvedAddr :=
      if newConfig.host = existing.host ∧ newConfig.port = existing.port then
        existing.resolvedAddr
      else newConfig.resolvedAddr }, rfl, rfl, ?_, fun id st hst => ?_⟩
  · by_cases henable : existing.enabled = false ∧ newConfig.enabled = true
    · simp only [updateTrunkByName, hfind, if_pos henable]
      rfl
    · simp only [updateTrunkByName, hfind, if_neg henable]
  · simp only [updateTrunkByName, hfind]
    split
    next =>
      by_cases hid : id = existing.id
      · subst hid
        refine ⟨clearCooldowns st, ?_, rfl⟩
        rw [updateState, lookup_modify_self, hst]
        rfl
      · exact ⟨st, (lookup_modify_ne hid _ _).trans hst, rfl⟩
    next => exact ⟨st, hst, rfl⟩

theorem balanced_updateTrunk {s : System} (h : Balanced s) (name : List Char)
    (newConfig : TrunkConfig) (hop : Allowed s (.updateTrunkByName name newConfig)) :
    Balanced (step s (.updateTrunkByName name newConfig)) := by
  cases hfind : findByName s.manager name with
  | none =>
      have hsame : step s (.updateTrunkByName name newConfig) = s := by
        change { s with manager := (updateTrunkByName s.manager name newConfig).2 } = s
        rw [updateTrunkByName, hfind]
      rw [hsame]
      exact h
  | some existing =>
      obtain ⟨config, hid, hname, htrunks, hstates⟩ := updateTrunkByName_spec hfind newConfig
      obtain ⟨-, id₀, hex⟩ := findByName_eq_some hfind
      have hid₀ := h.keyed id₀ existing hex
      subst hid₀
      obtain ⟨st, hst, hs⟩ := h.settles existing.id existing hex
      obtain ⟨st', hst', hactive⟩ := hstates existing.id st hst
      refine balanced_insert h config htrunks (fun id c hc heq => ?_) ⟨st', hid ▸ hst', ?_⟩
        fun id st _ => hstates id st
      · rw [hid]
        by_cases hrename : existing.name = newConfig.name
        · exact h.named id existing.id c existing hc hex (heq.trans (hname.trans hrename.symm))
        · exact absurd (heq.trans hname) ((hop existing hfind hrename).1 id c hc)
      · rw [hname, hactive]
        by_cases hrename : existing.name = newConfig.name
        · rw [← hrename]
          exact hs
        · exact (hop existing hfind hrename).2 st hst

theorem balanced_removeByName {s : System} (h : Balanced s) (name : List Char) :
    Balanced (step s (.removeByName name)) := by
  change Balanced { s with manager := (removeByName s.manager name).2 }
  rw [removeByName]
  split
  next t ht =>
    rw [removeTrunk]
    split
    next =>
      have hlookup {id : TrunkId} {c : TrunkConfig}
          (hc : (s.manager.trunks.erase t.id).lookup id = some c) :
          id ≠ t.id ∧ s.manager.trunks.lookup id = some c := by
        have hne : id ≠ t.id := by
          rintro rfl
          rw [AList.lookup_erase] at hc
          cases hc
        exact ⟨hne, (AList.lookup_erase_ne hne).symm.trans hc⟩
      refine ⟨fun id c hc => h.keyed id c (hlookup hc).2, fun id id' c c' hc hc' =>
        h.named id id' c c' (hlookup hc).2 (hlookup hc').2, fun id c hc => ?_⟩
      obtain ⟨hne, hold⟩ := hlookup hc
      obtain ⟨st, hst, hs⟩ := h.settles id c hold
      exact ⟨st, (AList.lookup_erase_ne hne).trans hst, hs⟩
    next => exact h
  next => exact h

theorem balanced_newCall {s : System} (h : Balanced s) (call : B2buaCall) :
    Balanced (step s (.newCall call)) := by
  change Balanced (if s.calls.lookup call.uuid = none ∧ call.trunkCounted = none then _ else s)
  split
  next hnew =>
    refine h.of_trunks rfl fun id c st hc hst hs => ⟨st, hst, ?_⟩
    have hcount := count_insert_new (fun call : B2buaCall => decide (call.trunkCounted = some c.name))
      call hnew.1
    rw [hnew.2, decide_eq_false (Option.some_ne_none c.name).symm, Bool.toNat_false] at hcount
    simp only [Settles, releasing, claiming, counted] at *
    omega
  next => exact h

theorem balanced_endCall {s : System} (h : Balanced s) (uuid : List Char)
    (hop : Allowed s (.endCall uuid)) : Balanced (step s (.endCall uuid)) := by
  refine h.of_trunks rfl fun id c st hc hst hs => ⟨st, hst, ?_⟩
  have hcount : counted (step s (.endCall uuid)) c.name = counted s c.name := by
    cases hcall : s.calls.lookup uuid with
    | none =>
        have hgone : s.calls.erase uuid = s.calls :=
          AList.ext (List.kerase_of_notMem_keys (AList.lookup_eq_none.mp hcall))
        change count _ (s.calls.erase uuid) = _
        rw [hgone]
        rfl
    | some call =>
        have hcount := count_erase (fun call : B2buaCall => decide (call.trunkCounted = some c.name))
          hcall
        rw [hop call hcall, decide_eq_false (Option.some_ne_none c.name).symm] at hcount
        exact hcount
  rw [Settles, hcount]
  exact hs

theorem balanced_reorder {s : System} (h : Balanced s) (trunks : Table TrunkId TrunkConfig) :
    Balanced (step s (.reorder trunks)) := by
  change Balanced (if trunks.entries.Perm s.manager.trunks.entries then _ else s)
  split
  next hperm =>
    have hlookup (id : TrunkId) : trunks.lookup id = s.manager.trunks.lookup id :=
      AList.perm_lookup hperm
    refine ⟨fun id c hc => h.keyed id c (hlookup id ▸ hc), fun id id' c c' hc hc' => ?_,
      fun id c hc => h.settles id c (hlookup id ▸ hc)⟩
    exact h.named id id' c c' (hlookup id ▸ hc) (hlookup id' ▸ hc')
  next => exact h

theorem balanced_step {s : System} (h : Balanced s) {op : Op} (hop : Allowed s op) :
    Balanced (step s op) := by
  cases op with
  | startCount n uuid trunk => exact balanced_startCount h n uuid trunk
  | advance n => exact balanced_advance h n hop
  | addTrunk config => exact balanced_addTrunk h config hop
  | updateTrunkByName name newConfig => exact balanced_updateTrunk h name newConfig hop
  | removeByName name => exact balanced_removeByName h name
  | newCall call => exact balanced_newCall h call
  | endCall uuid => exact balanced_endCall h uuid hop
  | reorder trunks => exact balanced_reorder h trunks

theorem balanced_new : Balanced .new where
  keyed _ _ hc := by cases hc
  named _ _ _ _ hc := by cases hc
  settles _ _ hc := by cases hc

/-- The counter of the trunk is the number of live calls that point at it. -/
def CountedRight (s : System) (id : TrunkId) (c : TrunkConfig) : Prop :=
  ∃ st, s.manager.states.lookup id = some st ∧ st.activeCalls.toNat = counted s c.name

/-- After every run of allowed operations, and once all started updates have
finished, every trunk's counter is right. -/
theorem trunk_counters_right (ops : List Op) (hops : Throughout step Allowed .new ops)
    (hdone : ∀ n t, (ops.foldl step .new).tasks.lookup n = some t → t.finished = true) (id : TrunkId)
    (c : TrunkConfig) (hc : (ops.foldl step .new).manager.trunks.lookup id = some c) :
    CountedRight (ops.foldl step .new) id c := by
  have hbalanced := invariant_run (I := Balanced) (A := Allowed)
    (fun _ _ h hop => balanced_step h hop) balanced_new hops
  generalize ops.foldl step .new = s at *
  obtain ⟨st, hst, hs⟩ := hbalanced.settles id c hc
  have hzero {p : Task → Bool} (hp : ∀ t : Task, t.finished = true → p t = false) :
      count p s.tasks = 0 := by
    rw [count, List.countP_eq_zero]
    intro e he
    rw [hp e.2 (hdone e.1 e.2 (AList.mem_lookup_iff.mpr he))]
    decide
  have hrel : releasing s c.name = 0 := hzero fun t ht => by
    rw [(of_decide_eq_true ht).1]
    rfl
  have hclaim : claiming s c.name = 0 := hzero fun t ht => by
    rw [(of_decide_eq_true ht).2]
    rfl
  rw [Settles, hrel, hclaim] at hs
  exact ⟨st, hst, hs⟩

def sampleTrunk : TrunkConfig where
  id := 1
  name := ['t']
  enabled := true
  host := ['h']
  port := 5060
  resolvedAddr := none
  numberFormat := .e164
  countryCode := none
  nationalPrefix := none

def sampleCall : B2buaCall := .new ['u'] ['i'] ['g'] (NetAddr.ofOctets 192 0 2 1 5060) .udp

/-- A call that is counted on a trunk. -/
def countedRun : List Op :=
  [.addTrunk sampleTrunk, .newCall sampleCall, .startCount 0 ['u'] (some ['t']), .advance 0]

theorem trunk_counters_right_sample : CountedRight (countedRun.foldl step .new) 1 sampleTrunk := by
  refine trunk_counters_right countedRun ⟨⟨?_, by unfold Settles; decide⟩, trivial, trivial,
    ⟨?_, ?_⟩, trivial⟩ ?_ 1 sampleTrunk (by decide)
  · intro id c hc
    cases hc
  · intro prev claim ht
    cases ht
  · intro name ht st hst
    cases ht
    cases hst
    decide
  · intro n t ht
    have hmem : (⟨n, t⟩ : Sigma fun _ : Nat => Task) ∈ [⟨0, ⟨none, none⟩⟩] :=
      AList.mem_lookup_iff.mp ht
    cases List.mem_singleton.mp hmem
    rfl

/-- A call that is released before the update that counts it got to the
counter, which is at zero then and stays there. -/
def overtakenRun : List Op :=
  [.addTrunk sampleTrunk, .newCall sampleCall, .startCount 0 ['u'] (some ['t']),
    .startCount 1 ['u'] none, .advance 1, .advance 0]

/-- A trunk that is removed and added again while a call points at its name. -/
def readdedRun : List Op := countedRun ++ [.removeByName ['t'], .addTrunk sampleTrunk]

/-- With all updates finished, the counter is one for no call after the first
run, and zero for one call after the second. -/
theorem trunk_counters_drift :
    ((∀ e ∈ (overtakenRun.foldl step .new).tasks.entries, e.2.finished = true) ∧
      ((overtakenRun.foldl step .new).manager.states.lookup 1).map (·.activeCalls) = some 1 ∧
      counted (overtakenRun.foldl step .new) sampleTrunk.name = 0) ∧
    ((∀ e ∈ (readdedRun.foldl step .new).tasks.entries, e.2.finished = true) ∧
      ((readdedRun.foldl step .new).manager.states.lookup 1).map (·.activeCalls) = some 0 ∧
      counted (readdedRun.foldl step .new) sampleTrunk.name = 1) := by
  decide

end NixiSbc.TrunkAccounting
