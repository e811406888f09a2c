import NixiSbc.Hydration

namespace NixiSbc.HydrationParts

open KeyedTable Trunks Destinations Acl Hydration

inductive Part
  | users
  | dids
  | trunks
  | acl
  | destinations
  | userLimits
  deriving DecidableEq

def Part.order : List Part := [.users, .dids, .trunks, .acl, .destinations, .userLimits]

/-- What each manager holds. -/
abbrev Holding (E : Env) : Part → Type
  | .users => Option (Table (List Char) (List Char))
  | .dids => List DidMapping
  | .trunks => TrunkTable
  | .acl => AclManager E.networks
  | .destinations => DestinationPolicy
  | .userLimits => UserLimitsManager

variable {E : Env} {p : Pass} {r : Runtime E} {q q' : Part}

def holding (r : Runtime E) : (q : Part) → Holding E q
  | .users => r.users
  | .dids => r.dids
  | .trunks => r.trunks
  | .acl => r.acl
  | .destinations => r.destinations
  | .userLimits => r.userLimits

def put (r : Runtime E) : (q : Part) → Holding E q → Runtime E
  | .users, users => { r with users }
  | .dids, dids => { r with dids }
  | .trunks, trunks => { r with trunks }
  | .acl, acl => { r with acl }
  | .destinations, destinations => { r with destinations }
  | .userLimits, userLimits => { r with userLimits }

def destinationsAfter (p : Pass) (policy : DestinationPolicy) : DestinationPolicy :=
  if p.store.destinationRules ≠ [] then { policy with rules := p.store.destinationRules.map destinationRuleOf }
  else if (p.store.settings destinationRulesSeededKey.toList).isSome then { policy with rules := [] }
  else policy

/-- What a manager holds once the store has been applied to it. -/
def after (E : Env) (p : Pass) : (q : Part) → Holding E q → Holding E q
  | .users, users => users.map fun _ => ha1Map p.store.users
  | .dids, _ => mappings p.store.dids
  | .trunks, l => disableAbsent (p.store.trunks.map (·.name)) (p.store.trunks.foldl (applyRow E p) l)
  | .acl, acl =>
      (acl.replaceRules (p.store.aclRules.filterMap (ruleOf E.networks))).setDefaultAction
        (defaultAction p acl.defaultAction)
  | .destinations, policy => destinationsAfter p policy
  | .userLimits, m =>
      { m with overrides := overridesOf p.store.users, defaults := limitDefaults p m.configDefaults }

/-- The reads of the part whose failure ends the hydration succeed. -/
def served (p : Pass) (r : Runtime E) : Part → Bool
  | .users => r.users.isNone ∨ p.fails .users = none
  | .dids => p.fails .dids = none
  | .trunks => p.fails .trunks = none ∧ p.fails .routes = none
  | .acl => p.fails .aclRules = none
  | .destinations => p.fails .destinationRules = none ∧
      (p.store.destinationRules = [] → p.fails .seedMarker = none)
  | .userLimits => p.fails .userLimits = none

def apply (p : Pass) : Part → Runtime E → Except Error (Runtime E)
  | .users => applyUsers p
  | .dids => applyDids p
  | .trunks => applyTrunksAndRoutes p
  | .acl => applyAcl p
  | .destinations => applyDestinations p
  | .userLimits => applyUserLimits p

def advance (p : Pass) (r : Runtime E) (q : Part) : Runtime E := put r q (after E p q (holding r q))

theorem hydrateAll_eq : hydrateAll p r = runAll (Part.order.map (apply p)) r := rfl

@[simp] theorem holding_put_self (x : Holding E q) : holding (put r q x) q = x := by
  cases q <;> rfl

theorem holding_put_ne (h : q ≠ q') (x : Holding E q) : holding (put r q x) q' = holding r q' := by
  cases q <;> cases q' <;> first | rfl | exact absurd rfl h

@[simp] theorem served_advance (p p' : Pass) (r : Runtime E) (q : Part) :
    served p' (advance p r q) = served p' r := by
  funext q'
  cases q <;> cases q' <;> simp [served, advance, put, after, holding]

theorem load_bind {α β : Type} (fails : Failures) (read : Read) (what : String) (rows : α)
    (f : α → Except Error β) :
    fails read = none ∧ (load fails read what rows >>= f) = f rows ∨
      fails read ≠ none ∧ ∃ e, (load fails read what rows >>= f) = .error e := by
  cases h : fails read with
  | none => exact .inl ⟨rfl, by rw [load, h]; rfl⟩
  | some e => exact .inr ⟨by simp, _, by rw [load, h]; rfl⟩

/-- A part is brought to what the store says, or a read fails and nothing is written. -/
theorem apply_spec (p : Pass) (r : Runtime E) (q : Part) :
    served p r q = true ∧ apply p q r = .ok (advance p r q) ∨
      served p r q = false ∧ ∃ e, apply p q r = .error e := by
  cases q with
  | users =>
      cases hu : r.users with
      | none =>
          have hput : put r .users none = r := by rw [← hu]; rfl
          left
          exact ⟨by simp [served, hu], by simp [apply, applyUsers, advance, holding, after, hu, hput]⟩
      | some t =>
          simp only [apply, applyUsers, hu]
          rcases load_bind p.fails .users "users" p.store.users _ with ⟨h, hok⟩ | ⟨h, herr⟩
          · exact .inl ⟨by simp [served, h], hok.trans (by rw [advance, holding, hu]; rfl)⟩
          · exact .inr ⟨by simp [served, hu, h], herr⟩
  | dids =>
      rcases load_bind p.fails .dids "dids" p.store.dids _ with ⟨h, hok⟩ | ⟨h, herr⟩
      · exact .inl ⟨by simp [served, h], hok⟩
      · exact .inr ⟨by simp [served, h], herr⟩
  | trunks =>
      rcases load_bind p.fails .trunks "trunks" p.store.trunks _ with ⟨h, hok⟩ | ⟨h, herr⟩
      · rcases load_bind p.fails .routes "routes" p.store.routes _ with ⟨h', hok'⟩ | ⟨h', herr'⟩
        · exact .inl ⟨by simp [served, h, h'], hok.trans hok'⟩
        · exact .inr ⟨by simp [served, h'], herr'.imp fun _ => hok.trans⟩
      · exact .inr ⟨by simp [served, h], herr⟩
  | acl =>
      rcases load_bind p.fails .aclRules "acl" p.store.aclRules _ with ⟨h, hok⟩ | ⟨h, herr⟩
      · exact .inl ⟨by simp [served, h], hok⟩
      · exact .inr ⟨by simp [served, h], herr⟩
  | destinations =>
      rcases load_bind p.fails .destinationRules "destination rules" p.store.destinationRules _ with
        ⟨h, hok⟩ | ⟨h, herr⟩
      · by_cases hrows : p.store.destinationRules = []
        · rcases load_bind p.fails .seedMarker "seed marker" (p.store.settings destinationRulesSeededKey.toList) _ with
            ⟨h', hok'⟩ | ⟨h', herr'⟩
          · refine .inl ⟨by simp [served, h, h'], (hok.trans (if_pos hrows)).trans (hok'.trans ?_)⟩
            cases hmarker : p.store.settings destinationRulesSeededKey.toList <;>
              simp [advance, after, destinationsAfter, hrows, hmarker, holding, put] <;> rfl
          · exact .inr ⟨by simp [served, hrows, h'], herr'.imp fun _ => (hok.trans (if_pos hrows)).trans⟩
        · refine .inl ⟨by simp [served, h, hrows], (hok.trans (if_neg hrows)).trans ?_⟩
          simp only [advance, after, destinationsAfter, ne_eq, hrows, not_false_eq_true, if_true]
          rfl
      · exact .inr ⟨by simp [served, h], herr⟩
  | userLimits =>
      rcases load_bind p.fails .userLimits "user limits" p.store.users _ with ⟨h, hok⟩ | ⟨h, herr⟩
      · exact .inl ⟨by simp [served, h], hok⟩
      · exact .inr ⟨by simp [served, h], herr⟩

theorem runAll_cons_ok {l : List Part} (h : served p r q = true) :
    runAll ((q :: l).map (apply p)) r = runAll (l.map (apply p)) (advance p r q) := by
  have happly : apply p q r = .ok (advance p r q) := by
    rcases apply_spec p r q with h' | h'
    · exact h'.2
    · simp [h] at h'
  simp only [List.map_cons, runAll, happly]

theorem runAll_cons_error {l : List Part} (h : served p r q = false) :
    ∃ e, runAll ((q :: l).map (apply p)) r = (.error e, r) := by
  obtain ⟨e, happly⟩ : ∃ e, apply p q r = .error e := by
    rcases apply_spec p r q with h' | h'
    · simp [h] at h'
    · exact h'.2
  exact ⟨e, by simp only [List.map_cons, runAll, happly]⟩

/-- The parts are written up to the first whose reads fail. -/
theorem runAll_state (p : Pass) (r : Runtime E) (l : List Part) :
    (runAll (l.map (apply p)) r).2 = (l.takeWhile (served p r)).foldl (advance p) r := by
  induction l generalizing r with
  | nil => rfl
  | cons q l ih =>
      cases h : served p r q with
      | true =>
          rw [runAll_cons_ok h, ih, served_advance, List.takeWhile_cons_of_pos h]
          rfl
      | false =>
          obtain ⟨e, hrun⟩ := runAll_cons_error (l := l) h
          rw [hrun, List.takeWhile_cons_of_neg (by simp [h])]
          rfl

theorem runAll_ok_iff (p : Pass) (r : Runtime E) (l : List Part) :
    (runAll (l.map (apply p)) r).1 = .ok () ↔ ∀ q ∈ l, served p r q = true := by
  induction l generalizing r with
  | nil => simp [runAll]
  | cons q l ih =>
      cases h : served p r q with
      | true => rw [runAll_cons_ok h, ih, served_advance, List.forall_mem_cons, h, eq_self, true_and]
      | false =>
          obtain ⟨e, hrun⟩ := runAll_cons_error (l := l) h
          rw [hrun]
          simp [h]

theorem served_hydrateAll (p p' : Pass) (r : Runtime E) : served p' (hydrateAll p r).2 = served p' r := by
  rw [hydrateAll_eq, runAll_state]
  generalize Part.order.takeWhile (served p r) = l
  induction l generalizing r with
  | nil => rfl
  | cons q l ih => rw [List.foldl_cons, ih, served_advance]

theorem holding_foldl {l : List Part} (hl : l.Nodup) :
    holding (l.foldl (advance p) r) q = if q ∈ l then after E p q (holding r q) else holding r q := by
  induction l generalizing r with
  | nil => rfl
  | cons q' l ih =>
      obtain ⟨hnew, hl⟩ := List.nodup_cons.mp hl
      rw [List.foldl_cons, ih hl]
      by_cases hq : q' = q
      · subst hq
        rw [if_neg hnew, if_pos List.mem_cons_self, advance, holding_put_self]
      · simp only [advance, holding_put_ne hq, List.mem_cons, Ne.symm hq, false_or]

theorem holding_hydrateAll (p : Pass) (r : Runtime E) (q : Part) :
    holding (hydrateAll p r).2 q =
      if q ∈ Part.order.takeWhile (served p r) then after E p q (holding r q) else holding r q := by
  have horder : (Part.order.takeWhile (served p r)).Nodup := (List.takeWhile_sublist _).nodup (by decide)
  rw [hydrateAll_eq, runAll_state, holding_foldl horder]

theorem mem_order (q : Part) : q ∈ Part.order := by
  cases q <;> decide

theorem hydrateAll_ok_iff (p : Pass) (r : Runtime E) :
    (hydrateAll p r).1 = .ok () ↔ ∀ q, served p r q = true := by
  rw [hydrateAll_eq, runAll_ok_iff]
  exact ⟨fun h q => h q (mem_order q), fun h q _ => h q⟩

/-- After a hydration that succeeds every manager has been brought to the store. -/
theorem holding_of_ok (h : (hydrateAll p r).1 = .ok ()) (q : Part) :
    holding (hydrateAll p r).2 q = after E p q (holding r q) := by
  have hserved := (hydrateAll_ok_iff p r).mp h
  rw [holding_hydrateAll, if_pos]
  rw [List.takeWhile_eq_self_iff.mpr fun q _ => hserved q]
  exact mem_order q

end NixiSbc.HydrationParts
