import Mathlib.Data.Fintype.EquivFin
import NixiSbc.HydrationFailures

namespace NixiSbc.HydrationAgreement

open KeyedTable NetAddr Destinations Acl Hydration HydrationParts HydratedTrunks HydrationFailures

variable {E : Env} {p p' again : Pass} {r r' : Runtime E}

/-- A trunk that is on has these settings. -/
def Offers (l : TrunkTable) (s : TrunkConfig) : Prop := ∃ t ∈ l, t.enabled = true ∧ settings t = s

/-- What callers can tell of the managers, with ids, addresses and call states aside. -/
def Alike : (q : Part) → Holding E q → Holding E q → Prop
  | .users, u, u' => Same (E := E) .users u u'
  | .dids, dids, dids' => dids = dids'
  | .trunks, l, l' => ∀ s, Offers l s ↔ Offers l' s
  | .acl, m, m' => SameVerdicts m m'
  | .destinations, policy, policy' => ∀ dialed user, (check policy dialed user).1 = (check policy' dialed user).1
  | .userLimits, m, m' => ∀ user, UserLimits.limitsFor m.toUserLimitsManager user =
      UserLimits.limitsFor m'.toUserLimitsManager user

def Agree (r r' : Runtime E) : Prop := ∀ q, Alike q (holding r q) (holding r' q)

/-- What the file sets and no hydration writes. -/
structure SameBoot (r r' : Runtime E) : Prop where
  users : r.users.isSome = r'.users.isSome
  enabled : r.destinations.enabled = r'.destinations.enabled
  defaultDeny : r.destinations.defaultDeny = r'.destinations.defaultDeny
  defaultCc : r.destinations.defaultCc = r'.destinations.defaultCc
  configDefaults : r.userLimits.configDefaults = r'.userLimits.configDefaults

def storedRules (E : Env) (p : Pass) : List (AclRule E.networks) := p.store.aclRules.filterMap (ruleOf E.networks)

/-- Trunks beside the first of a name, which a hydration leaves as they are. -/
def Spare (l : TrunkTable) (name : List Char) (s : TrunkConfig) : Prop :=
  ∃ t ∈ (ofName name l).tail, t.enabled = true ∧ settings t = s

def allowsByDefault (p : Pass) (inForce : AclAction) : Bool := defaultAction p inForce ≠ .deny

theorem values_after (p : Pass) (m : AclManager E.networks) :
    (after E p .acl m).values.Perm (storedRules E p) :=
  values_replaceRules m (rules_nodup p.store.aclRules_nodup)

theorem storedRules_inj (p : Pass) :
    ∀ rule ∈ storedRules E p, ∀ rule' ∈ storedRules E p, rule.id = rule'.id → rule = rule' :=
  fun _ hrule _ hrule' h => List.inj_on_of_nodup_map (rules_nodup p.store.aclRules_nodup) hrule hrule' h

theorem Spare.name {l : TrunkTable} {name : List Char} {s : TrunkConfig} (h : Spare l name s) : s.name = name := by
  obtain ⟨t, ht, -, rfl⟩ := h
  exact of_decide_eq_true (List.mem_filter.mp (List.mem_of_mem_tail ht)).2

theorem Spare.enabled {l : TrunkTable} {name : List Char} {s : TrunkConfig} (h : Spare l name s) :
    s.enabled = true := by
  obtain ⟨t, -, henabled, rfl⟩ := h
  exact henabled

theorem enabled_written (p : Pass) (row : TrunkRow) (found : Option TrunkConfig) :
    (written E p row found).enabled = row.enabled :=
  congrArg (·.enabled) (@settings_written E p row found)

theorem offers_after {l : TrunkTable} {s : TrunkConfig} :
    Offers (after E p .trunks l) s ↔ ∃ row ∈ p.store.trunks,
      (row.enabled = true ∧ s = settings (rowConfig E p row)) ∨ Spare l row.name s := by
  constructor
  · rintro ⟨t, ht, henabled, rfl⟩
    obtain ⟨row, hrow, -, hwritten | hspare⟩ := (mem_after_iff henabled).mp ht
    · rw [hwritten, enabled_written] at henabled
      exact ⟨row, hrow, .inl ⟨henabled, by rw [hwritten, settings_written]⟩⟩
    · exact ⟨row, hrow, .inr ⟨t, hspare, henabled, rfl⟩⟩
  · rintro ⟨row, hrow, ⟨henabled, rfl⟩ | ⟨t, ht, henabled, rfl⟩⟩
    · have hwritten : (written E p row (ofName row.name l).head?).enabled = true := by
        rw [enabled_written, henabled]
      exact ⟨_, (mem_after_iff hwritten).mpr ⟨row, hrow, name_written _, .inl rfl⟩, hwritten, settings_written _⟩
    · have hname : t.name = row.name := of_decide_eq_true (List.mem_filter.mp (List.mem_of_mem_tail ht)).2
      exact ⟨t, (mem_after_iff henabled).mpr ⟨row, hrow, hname, .inr ht⟩, henabled, rfl⟩

theorem settings_rowConfig (hstore : p'.store = p.store) (row : TrunkRow) :
    settings (rowConfig E p' row) = settings (rowConfig E p row) := by
  rw [rowConfig, rowConfig, hstore]
  rfl

/-- Of the other trunks of a name nothing is told that the row does not tell. -/
theorem spare_of_offers {l : TrunkTable} {row : TrunkRow} {s : TrunkConfig} (hrow : row ∈ p.store.trunks)
    (hne : s ≠ settings (rowConfig E p row)) (hname : s.name = row.name)
    (h : Offers (after E p .trunks l) s) : Spare l row.name s := by
  obtain ⟨row', hrow', ⟨-, rfl⟩ | hspare⟩ := offers_after.mp h
  · have hsame : row' = row := List.inj_on_of_nodup_map p.store.trunks_nodup hrow' hrow hname
    exact absurd (hsame ▸ rfl) hne
  · rw [← hname, hspare.name]
    exact hspare

theorem offers_agree_iff {l l' : TrunkTable} (hstore : p'.store = p.store) :
    (∀ s, Offers (after E p .trunks l) s ↔ Offers (after E p' .trunks l') s) ↔
      ∀ row ∈ p.store.trunks, ∀ s, s ≠ settings (rowConfig E p row) →
        (Spare l row.name s ↔ Spare l' row.name s) := by
  constructor
  · intro h row hrow s hne
    constructor
    · intro hspare
      have hoffers := (h s).mp (offers_after.mpr ⟨row, hrow, .inr hspare⟩)
      exact spare_of_offers (hstore ▸ hrow) (by rwa [settings_rowConfig hstore]) hspare.name hoffers
    · intro hspare
      have hoffers := (h s).mpr (offers_after.mpr ⟨row, hstore ▸ hrow, .inr hspare⟩)
      exact spare_of_offers hrow hne hspare.name hoffers
  · intro h s
    simp only [offers_after, hstore, settings_rowConfig hstore]
    refine exists_congr fun row => and_congr_right fun hrow => ?_
    by_cases hs : s = settings (rowConfig E p row)
    · -- the row tells of itself when it is on, and a spare trunk is on
      have hrowEnabled (l : TrunkTable) (hspare : Spare l row.name s) : row.enabled = true := by
        rw [← hspare.enabled, hs]
        rfl
      constructor
      · rintro (htold | hspare)
        · exact .inl htold
        · exact .inl ⟨hrowEnabled l hspare, hs⟩
      · rintro (htold | hspare)
        · exact .inl htold
        · exact .inl ⟨hrowEnabled l' hspare, hs⟩
    · rw [h row hrow s hs]

theorem offers_again {l : TrunkTable} (hstore : again.store = p.store) (s : TrunkConfig) :
    Offers (after E p .trunks l) s ↔ Offers (after E again .trunks (after E p .trunks l)) s := by
  have hspare : ∀ row ∈ p.store.trunks, Spare (after E p .trunks l) row.name s ↔ Spare l row.name s := by
    intro row hrow
    rw [Spare, ofName_after hrow, List.tail_cons]
    rfl
  rw [offers_after, offers_after, hstore]
  refine exists_congr fun row => and_congr_right fun hrow => ?_
  rw [settings_rowConfig hstore, hspare row hrow]

theorem destinationsAfter_seeded (hseeded : (p.store.settings destinationRulesSeededKey.toList).isSome = true)
    (policy : DestinationPolicy) :
    destinationsAfter p policy = { policy with rules := p.store.destinationRules.map destinationRuleOf } := by
  by_cases hrows : p.store.destinationRules = []
  · simp [destinationsAfter, hrows, hseeded]
  · simp [destinationsAfter, hrows]

theorem check_congr {policy policy' : DestinationPolicy} (hrules : policy.rules = policy'.rules)
    (henabled : policy.enabled = policy'.enabled) (hdeny : policy.defaultDeny = policy'.defaultDeny)
    (hcc : policy.defaultCc = policy'.defaultCc) (dialed : List Char) (user : Option (List Char)) :
    (check policy dialed user).1 = (check policy' dialed user).1 := by
  have hcanonicalize : canonicalize policy dialed = canonicalize policy' dialed := by
    simp only [canonicalize, hcc]
  have happlies : applies policy dialed user = applies policy' dialed user := by
    funext rule
    simp only [applies, hcanonicalize]
  simp only [check, hrules, henabled, hdeny, happlies]
  split
  · rfl
  · split
    · split <;> rfl
    · split <;> rfl

theorem exists_no_override (t : Table (List Char) UserLimits.Limits) : ∃ user, t.lookup user = none := by
  obtain ⟨user, huser⟩ := Infinite.exists_notMem_finset t.keys.toFinset
  rw [List.mem_toFinset, ← AList.mem_keys] at huser
  exact ⟨user, AList.lookup_eq_none.mpr huser⟩

theorem limitsFor_agree_iff {m m' : UserLimitsManager} (h : m.overrides = m'.overrides) :
    (∀ user, UserLimits.limitsFor m.toUserLimitsManager user = UserLimits.limitsFor m'.toUserLimitsManager user) ↔
      m.defaults = m'.defaults := by
  constructor
  · intro hsame
    obtain ⟨user, huser⟩ := exists_no_override m.overrides
    have hlimits := hsame user
    simpa only [UserLimits.limitsFor, ← h, huser] using hlimits
  · intro hdefaults user
    simp only [UserLimits.limitsFor, h, hdefaults]

/-- What the store leaves open between two hydrations. Two rules must not tie, the
default action must be alike where a rule can miss an address, the limits of the
file must not show on one side alone, and the trunks that no row names first must
be on with the same settings. -/
def Settled (p p' : Pass) : (q : Part) → Holding E q → Holding E q → Prop
  | .trunks, l, l' => ∀ row ∈ p.store.trunks, ∀ s, s ≠ settings (rowConfig E p row) →
      (Spare l row.name s ↔ Spare l' row.name s)
  | .acl, m, m' => Unambiguous (storedRules E p) ∧
      (allowsByDefault p m.defaultAction = allowsByDefault p' m'.defaultAction ∨ Covering (storedRules E p))
  | .userLimits, m, m' => limitDefaults p m.configDefaults = limitDefaults p' m'.configDefaults
  | .users, _, _ => True
  | .dids, _, _ => True
  | .destinations, _, _ => True

/-- What a second hydration needs beside that: its reads of the settings find what
the first ones found. -/
def Steady (p again : Pass) : (q : Part) → Holding E q → Prop
  | .acl, m =>
      allowsByDefault p m.defaultAction = allowsByDefault again (defaultAction p m.defaultAction) ∨
        Covering (storedRules E p)
  | .userLimits, m => limitDefaults p m.configDefaults = limitDefaults again m.configDefaults
  | .users, _ => True
  | .dids, _ => True
  | .trunks, _ => True
  | .destinations, _ => True

theorem verdicts_agree_iff {m m' : AclManager E.networks} (hstore : p'.store = p.store) :
    SameVerdicts (after E p .acl m) (after E p' .acl m') ↔ Unambiguous (storedRules E p) ∧
      (allowsByDefault p m.defaultAction = allowsByDefault p' m'.defaultAction ∨ Covering (storedRules E p)) := by
  have hvalues' : (after E p' .acl m').values.Perm (storedRules E p) := by
    have hvalues := values_after p' m'
    rwa [storedRules, hstore] at hvalues
  exact sameVerdicts_iff (values_after p m) hvalues' (storedRules_inj p)

theorem destinations_agree {policy policy' : DestinationPolicy} (hstore : p'.store = p.store)
    (hseeded : (p.store.settings destinationRulesSeededKey.toList).isSome = true)
    (henabled : policy.enabled = policy'.enabled) (hdeny : policy.defaultDeny = policy'.defaultDeny)
    (hcc : policy.defaultCc = policy'.defaultCc) (dialed : List Char) (user : Option (List Char)) :
    (check (destinationsAfter p policy) dialed user).1 = (check (destinationsAfter p' policy') dialed user).1 := by
  rw [destinationsAfter_seeded hseeded, destinationsAfter_seeded (by rwa [hstore])]
  apply check_congr
  · simp only [hstore]
  · exact henabled
  · exact hdeny
  · exact hcc

theorem alike_after_iff (hstore : p'.store = p.store)
    (hseeded : (p.store.settings destinationRulesSeededKey.toList).isSome = true) (hboot : SameBoot r r') (q : Part) :
    Alike q (after E p q (holding r q)) (after E p' q (holding r' q)) ↔
      Settled p p' q (holding r q) (holding r' q) := by
  cases q with
  | users =>
      have husers := hboot.users
      refine iff_of_true ?_ trivial
      cases hu : r.users <;> cases hu' : r'.users <;> simp [Alike, Same, after, holding, hu, hu', hstore] at husers ⊢
  | dids => exact iff_of_true (by simp only [Alike, after, hstore]) trivial
  | trunks => exact offers_agree_iff hstore
  | acl => exact verdicts_agree_iff hstore
  | destinations =>
      exact iff_of_true (destinations_agree hstore hseeded hboot.enabled hboot.defaultDeny hboot.defaultCc) trivial
  | userLimits => exact limitsFor_agree_iff (by simp only [after, hstore])

theorem alike_again_iff (hagain : again.store = p.store)
    (hseeded : (p.store.settings destinationRulesSeededKey.toList).isSome = true)
    (huntied : Unambiguous (storedRules E p)) (q : Part) (h : Holding E q) :
    Alike q (after E p q h) (after E again q (after E p q h)) ↔ Steady p again q h := by
  cases q with
  | users => cases h <;> simp [Alike, Same, after, Steady, hagain]
  | dids => exact iff_of_true (by simp only [Alike, after, hagain]) trivial
  | trunks => exact iff_of_true (offers_again hagain) trivial
  | acl => exact (verdicts_agree_iff hagain).trans (and_iff_right huntied)
  | destinations =>
      refine iff_of_true (fun dialed user => ?_) trivial
      rw [after, after, destinationsAfter_seeded hseeded, destinationsAfter_seeded (by rwa [hagain]), hagain]
  | userLimits => exact limitsFor_agree_iff (by simp only [after, hagain])

theorem alike_self {q : Part} {h h' : Holding E q} (hsame : Alike q h h') : Alike q h h := by
  cases q with
  | users => exact ⟨rfl, fun _ => rfl⟩
  | dids => exact rfl
  | trunks => exact fun _ => Iff.rfl
  | acl =>
      intro values values' hperm hperm' ip dir
      exact (hsame values _ hperm (.refl _) ip dir).trans (hsame values' _ hperm' (.refl _) ip dir).symm
  | destinations => exact fun _ _ => rfl
  | userLimits => exact fun _ => rfl

/-- Two runtimes that were hydrated from one store agree, and a second hydration
of one leaves it as it is, just when nothing that the store leaves open differs. -/
theorem hydration_agrees_iff (hstore : p'.store = p.store) (hagain : again.store = p.store)
    (hseeded : (p.store.settings destinationRulesSeededKey.toList).isSome = true) (hboot : SameBoot r r')
    (hok : (hydrateAll p r).1 = .ok ()) (hok' : (hydrateAll p' r').1 = .ok ()) :
    (Agree (hydrateAll p r).2 (hydrateAll p' r').2 ∧
      Agree (hydrateAll p r).2 (hydrateAll again (hydrateAll p r).2).2) ↔
      (∀ q, Settled p p' q (holding r q) (holding r' q)) ∧
        ∀ q ∈ Part.order.takeWhile (served again r), Steady p again q (holding r q) := by
  have hfirst : Agree (hydrateAll p r).2 (hydrateAll p' r').2 ↔
      ∀ q, Settled p p' q (holding r q) (holding r' q) := by
    refine forall_congr' fun q => ?_
    rw [holding_of_ok hok, holding_of_ok hok', alike_after_iff hstore hseeded hboot]
  rw [hfirst]
  refine and_congr_right fun hsettled => ?_
  have huntied : Unambiguous (storedRules E p) := (hsettled .acl).1
  constructor
  · intro hagree q hq
    have hsame := hagree q
    rw [holding_hydrateAll again, served_hydrateAll, if_pos hq, holding_of_ok hok,
      alike_again_iff hagain hseeded huntied] at hsame
    exact hsame
  · intro hsteady q
    rw [holding_hydrateAll again, served_hydrateAll, holding_of_ok hok]
    by_cases hq : q ∈ Part.order.takeWhile (served again r)
    · rw [if_pos hq, alike_again_iff hagain hseeded huntied]
      exact hsteady q hq
    · rw [if_neg hq]
      exact alike_self ((alike_after_iff hstore hseeded hboot q).mpr (hsettled q))

theorem no_names : ([] : List (List Char)).Nodup := List.nodup_nil

/-- A seeded store with nothing else in it, and every read succeeds. -/
def emptyPass : Pass where
  store := {
    users := []
    dids := []
    trunks := []
    routes := []
    aclRules := []
    destinationRules := []
    settings := fun key => if key = destinationRulesSeededKey.toList then some [] else none
    users_nodup := no_names
    trunks_nodup := no_names
    aclRules_nodup := no_names }
  fails _ := none
  newId _ := 0
  resolve _ _ := none

def denying : Runtime plainEnv := { running with acl := running.acl.setDefaultAction .deny }

theorem emptyPass_ok (r : Runtime plainEnv) : (hydrateAll emptyPass r).1 = .ok () := by
  rw [hydrateAll_ok_iff]
  intro q
  cases q <;> simp [served, emptyPass]

theorem fresh_runtimes_agree :
    Agree (hydrateAll emptyPass running).2 (hydrateAll emptyPass running).2 ∧
      Agree (hydrateAll emptyPass running).2 (hydrateAll emptyPass (hydrateAll emptyPass running).2).2 := by
  refine (hydration_agrees_iff rfl rfl (by decide) ⟨rfl, rfl, rfl, rfl, rfl⟩ (emptyPass_ok running)
    (emptyPass_ok running)).mpr ⟨fun q => ?_, fun q _ => ?_⟩
  · cases q with
    | trunks => exact fun _ _ _ _ => Iff.rfl
    | acl => exact ⟨fun _ _ rule _ hwins _ => absurd hwins.mem List.not_mem_nil, .inl rfl⟩
    | userLimits => exact rfl
    | users => exact trivial
    | dids => exact trivial
    | destinations => exact trivial
  · cases q with
    | acl => exact .inl rfl
    | userLimits => exact rfl
    | users => exact trivial
    | dids => exact trivial
    | trunks => exact trivial
    | destinations => exact trivial

/-- The default action was stored once and then removed from the store. -/
theorem denial_lingers :
    ¬∀ (p p' again : Pass) (r r' : Runtime plainEnv), p'.store = p.store → again.store = p.store →
      (p.store.settings destinationRulesSeededKey.toList).isSome = true → SameBoot r r' →
      (hydrateAll p r).1 = .ok () → (hydrateAll p' r').1 = .ok () →
      Agree (hydrateAll p r).2 (hydrateAll p' r').2 ∧
        Agree (hydrateAll p r).2 (hydrateAll again (hydrateAll p r).2).2 := by
  intro h
  have hboot : SameBoot denying running := ⟨rfl, rfl, rfl, rfl, rfl⟩
  have hagree := (h emptyPass emptyPass emptyPass denying running rfl rfl (by decide) hboot (emptyPass_ok denying)
    (emptyPass_ok running)).1 .acl
  rw [holding_of_ok (emptyPass_ok denying), holding_of_ok (emptyPass_ok running)] at hagree
  rcases ((alike_after_iff rfl (by decide) hboot .acl).mp hagree).2 with hdefault | hcovering
  · exact absurd hdefault (by decide)
  · obtain ⟨rule, hrule, -⟩ := hcovering (.v4 ⟨#[192, 0, 2, 1], rfl⟩) .inbound
    exact absurd hrule List.not_mem_nil

end NixiSbc.HydrationAgreement
