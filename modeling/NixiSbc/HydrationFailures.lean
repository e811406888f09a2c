import NixiSbc.HydratedTrunks

namespace NixiSbc.HydrationFailures

open KeyedTable NetAddr RawSip TextFields Destinations Acl Hydration HydrationParts HydratedTrunks

variable {E : Env} {p : Pass} {r : Runtime E} {q : Part}

/-- Hash maps are compared by what they answer. -/
def Same : (q : Part) → Holding E q → Holding E q → Prop
  | .users, u, u' => u.isSome = u'.isSome ∧ ∀ name, (u.bind fun t => t.lookup name) = u'.bind fun t => t.lookup name
  | .dids, dids, dids' => dids = dids'
  | .trunks, l, l' => l = l'
  | .acl, a, a' => (∀ id, a.rules.lookup id = a'.rules.lookup id) ∧ a.defaultAction = a'.defaultAction
  | .destinations, policy, policy' => policy = policy'
  | .userLimits, m, m' =>
      (∀ user, m.overrides.lookup user = m'.overrides.lookup user) ∧ m.defaults = m'.defaults

/-- The trunks of the store are the first of their names, and the others are off. -/
structure TrunksInSync (E : Env) (p : Pass) (l : TrunkTable) : Prop where
  stored : ∀ row ∈ p.store.trunks, ∃ t, findByName l row.name = some t ∧ settings t = settings (rowConfig E p row)
  others : ∀ t ∈ l, t.enabled = true → t.name ∈ p.store.trunks.map (·.name)

/-- The manager already holds what the store says. -/
def InSync (E : Env) (p : Pass) : (q : Part) → Holding E q → Prop
  | .users, u => ∀ t, u = some t → ∀ name ha1, t.lookup name = some ha1 ↔
      ∃ row ∈ p.store.users, row.enabled = true ∧ row.username = name ∧ row.ha1 = ha1
  | .dids, dids => dids = mappings p.store.dids
  | .trunks, l => TrunksInSync E p l
  | .acl, a =>
      (∀ id rule, a.rules.lookup id = some rule ↔
        ∃ row ∈ p.store.aclRules, row.id = id ∧ ruleOf E.networks row = some rule) ∧
      ∀ text, readSetting p.fails .aclDefaultAction p.store aclDefaultActionKey = some text →
        a.defaultAction = actionOf text
  | .destinations, policy =>
      (p.store.destinationRules ≠ [] → policy.rules = p.store.destinationRules.map destinationRuleOf) ∧
      (p.store.destinationRules = [] → (p.store.settings destinationRulesSeededKey.toList).isSome →
        policy.rules = [])
  | .userLimits, m =>
      (∀ user, m.overrides.lookup user = (overridesOf p.store.users).lookup user) ∧
      m.defaults = limitDefaults p m.configDefaults

theorem lookup_ha1Map {rows : List UserRow} (h : (rows.map (·.username)).Nodup) {name ha1 : List Char} :
    (ha1Map rows).lookup name = some ha1 ↔
      ∃ row ∈ rows, row.enabled = true ∧ row.username = name ∧ row.ha1 = ha1 := by
  have henabled : ((rows.filter (·.enabled)).map (·.username)).Nodup := (List.filter_sublist.map _).nodup h
  simp only [ha1Map, lookup_foldl_insert _ _ henabled, List.mem_filter, and_assoc]

theorem ruleOf_id {N : Networks} {row : AclRuleRow} {rule : AclRule N} (h : ruleOf N row = some rule) :
    rule.id = row.id := by
  obtain ⟨cidr, -, rfl⟩ := Option.map_eq_some_iff.mp h
  rfl

theorem rules_nodup {N : Networks} {rows : List AclRuleRow} (h : (rows.map (·.id)).Nodup) :
    ((rows.filterMap (ruleOf N)).map (·.id)).Nodup := by
  have hsublist : ((rows.filterMap (ruleOf N)).map (·.id)).Sublist (rows.map (·.id)) := by
    clear h
    induction rows with
    | nil => exact .slnil
    | cons row rows ih =>
        rw [List.filterMap_cons, List.map_cons]
        cases hrule : ruleOf N row with
        | none => exact ih.cons _
        | some rule =>
            rw [List.map_cons, ruleOf_id hrule]
            exact ih.cons_cons _
  exact hsublist.nodup h

theorem lookup_replaceRules {N : Networks} {rows : List AclRuleRow} (h : (rows.map (·.id)).Nodup)
    (m : AclManager N) {id : List Char} {rule : AclRule N} :
    (m.replaceRules (rows.filterMap (ruleOf N))).rules.lookup id = some rule ↔
      ∃ row ∈ rows, row.id = id ∧ ruleOf N row = some rule := by
  refine (lookup_foldl_insert AclRule.id (fun rule => rule) (rules_nodup h)).trans ?_
  constructor
  · rintro ⟨rule', hrule', rfl, rfl⟩
    obtain ⟨row, hrow, hof⟩ := List.mem_filterMap.mp hrule'
    exact ⟨row, hrow, (ruleOf_id hof).symm, hof⟩
  · rintro ⟨row, hrow, rfl, hof⟩
    exact ⟨rule, List.mem_filterMap.mpr ⟨row, hrow, hof⟩, ruleOf_id hof, rfl⟩

theorem applyRow_eq_self {l : TrunkTable} {row : TrunkRow} {t : TrunkConfig} (hfound : findByName l row.name = some t)
    (hsettings : settings t = settings (rowConfig E p row)) : applyRow E p l row = l := by
  rw [applyRow_eq, hfound]
  simp only [written_eq_iff.mpr hsettings]
  clear hsettings
  induction l with
  | nil => rfl
  | cons t' l ih =>
      by_cases hname : t'.name = row.name
      · rw [findByName, List.find?_cons_of_pos (by simpa using hname), Option.some_inj] at hfound
        rw [writeFirst, if_pos hname, hfound]
      · rw [findByName, List.find?_cons_of_neg (by simpa using hname)] at hfound
        simp [writeFirst, hname, ih hfound]

theorem trunks_eq_iff {l : TrunkTable} : l = after E p .trunks l ↔ TrunksInSync E p l := by
  constructor
  · intro h
    constructor
    · intro row hrow
      have hofName := ofName_after (E := E) (l := l) hrow
      rw [← h] at hofName
      exact ⟨_, (findByName_eq l row.name).trans (congrArg List.head? hofName), settings_written _⟩
    · intro t ht henabled
      rw [h] at ht
      exact (mem_disableAbsent ht henabled).2
  · intro h
    have hrows : ∀ rows : List TrunkRow, rows ⊆ p.store.trunks → rows.foldl (applyRow E p) l = l := by
      intro rows hsub
      induction rows with
      | nil => rfl
      | cons row rows ih =>
          obtain ⟨t, hfound, hsettings⟩ := h.stored row (hsub List.mem_cons_self)
          rw [List.foldl_cons, applyRow_eq_self hfound hsettings]
          exact ih fun row' hrow' => hsub (List.mem_cons_of_mem _ hrow')
    rw [after, hrows p.store.trunks (List.Subset.refl _), disableAbsent]
    conv_lhs => rw [← List.map_id l]
    refine List.map_congr_left fun t ht => ?_
    rw [if_neg fun habsent => habsent.1 (h.others t ht habsent.2)]
    rfl

theorem policy_eq_iff {policy : DestinationPolicy} {rules : List DestinationRule} :
    policy = { policy with rules } ↔ policy.rules = rules := by
  constructor
  · intro h
    rw [h]
  · rintro rfl
    rfl

theorem destinationsAfter_eq_iff {policy : DestinationPolicy} :
    policy = destinationsAfter p policy ↔ InSync E p .destinations policy := by
  simp only [destinationsAfter, InSync]
  by_cases hrows : p.store.destinationRules = []
  · by_cases hmarker : (p.store.settings destinationRulesSeededKey.toList).isSome = true
    · simp [hrows, hmarker, policy_eq_iff]
    · simp [hrows, hmarker]
  · simp [hrows, policy_eq_iff]

/-- Applying the store to a manager changes nothing just when it is in sync. -/
theorem same_after_iff (h : Holding E q) : Same q h (after E p q h) ↔ InSync E p q h := by
  cases q with
  | users =>
      cases h with
      | none => simp [Same, InSync, after]
      | some t =>
          simp only [Same, InSync, after, Option.map_some, Option.isSome_some, Option.bind_some, true_and,
            Option.some_inj, forall_eq', ← lookup_ha1Map p.store.users_nodup]
          exact forall_congr' fun name => Option.ext_iff
  | dids => exact Iff.rfl
  | trunks => exact trunks_eq_iff
  | acl =>
      have hrules (id : List Char) (rule : AclRule E.networks) :=
        @lookup_replaceRules E.networks p.store.aclRules p.store.aclRules_nodup h id rule
      simp only [Same, InSync, after, AclManager.setDefaultAction, ← hrules]
      refine and_congr (forall_congr' fun id => Option.ext_iff) ?_
      cases hread : readSetting p.fails .aclDefaultAction p.store aclDefaultActionKey <;>
        simp [defaultAction, hread]
  | destinations => exact destinationsAfter_eq_iff
  | userLimits => exact Iff.rfl

theorem same_refl (h : Holding E q) : Same q h h := by
  cases q <;> simp [Same]

def SameRuntime (r r' : Runtime E) : Prop := ∀ q, Same q (holding r q) (holding r' q)

/-- A hydration that fails keeps the runtime just when every manager whose turn
came before the failing read already held what the store says. -/
theorem keeps_last_good_iff (p : Pass) (r : Runtime E) :
    ((hydrateAll p r).1 ≠ .ok () → SameRuntime r (hydrateAll p r).2) ↔
      ((∃ q, served p r q = false) →
        ∀ q ∈ Part.order.takeWhile (served p r), InSync E p q (holding r q)) := by
  have hfails : (hydrateAll p r).1 ≠ .ok () ↔ ∃ q, served p r q = false := by
    rw [ne_eq, hydrateAll_ok_iff]
    simp
  have hsame : SameRuntime r (hydrateAll p r).2 ↔
      ∀ q ∈ Part.order.takeWhile (served p r), InSync E p q (holding r q) := by
    refine forall_congr' fun q => ?_
    rw [holding_hydrateAll]
    by_cases hq : q ∈ Part.order.takeWhile (served p r)
    · rw [if_pos hq, same_after_iff]
      exact ⟨fun h _ => h, fun h => h hq⟩
    · rw [if_neg hq]
      exact ⟨fun _ h => absurd h hq, fun _ => same_refl _⟩
  rw [hfails, hsame]

def plainEnv : Env := ⟨⟨Unit, fun _ => none, fun _ _ => false⟩, asciiOnly, fun c => [c], fun _ => []⟩

/-- The operator has disabled a user, and the second read of the reload fails. -/
def failingReload : Pass where
  store := {
    users := [⟨"alice".toList, "0a".toList, false, none, none⟩]
    dids := []
    trunks := []
    routes := []
    aclRules := []
    destinationRules := []
    settings := fun _ => none
    users_nodup := by decide
    trunks_nodup := by decide
    aclRules_nodup := by decide }
  fails read := if read = .dids then some "disk I/O error".toList else none
  newId _ := 0
  resolve _ _ := none

def running : Runtime plainEnv where
  users := some ((∅ : Table (List Char) (List Char)).insert "alice".toList "0a".toList)
  dids := []
  trunks := []
  acl := .newPermissive
  destinations := ⟨[], false, [], true, 0⟩
  userLimits := ⟨⟨true, (0, 0), ∅, ∅⟩, (0, 0)⟩

theorem reload_drops_user :
    ¬∀ (p : Pass) (r : Runtime plainEnv), (hydrateAll p r).1 ≠ .ok () → SameRuntime r (hydrateAll p r).2 := by
  intro h
  have hfails : (hydrateAll failingReload running).1 ≠ .ok () := by
    intro hok
    have hserved : served failingReload running .dids = false := by decide
    exact absurd ((hydrateAll_ok_iff failingReload running).mp hok .dids) (by rw [hserved]; decide)
  have hlookup := (h failingReload running hfails .users).2 "alice".toList
  exact absurd hlookup (by decide)

end NixiSbc.HydrationFailures
