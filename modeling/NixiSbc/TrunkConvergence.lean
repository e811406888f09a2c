import NixiSbc.HydrationFailures
import NixiSbc.StateRuns
import NixiSbc.TrunkApplications

namespace NixiSbc.TrunkConvergence

open StateRuns Hydration HydratedTrunks TrunkApplications

structure Unique (l : TrunkTable) : Prop where
  names : (l.map (·.name)).Nodup
  ids : (l.map (·.id)).Nodup

def New (l : TrunkTable) (cfg : TrunkConfig) : Prop := cfg.name ∉ l.map (·.name) ∧ cfg.id ∉ l.map (·.id)

/-- What a request is about to add is new. -/
def Ready (l : TrunkTable) : Phase → Prop
  | .found _ cfg none _ => New l cfg
  | .resolved _ cfg false _ => New l cfg
  | _ => True

/-- The store has been written, and not listed since. -/
def Pending : Phase → Prop
  | .removing _ | .pending => True
  | _ => False

def Applying : Phase → Prop
  | .listed _ | .looking _ _ | .found _ _ _ _ | .resolved _ _ _ _ | .sweeping _ _ => True
  | _ => False

section Serving

variable (E : Env) (store : Store)

/-- What a row says of its trunk, but for the id and the address. -/
def rowSettings (row : TrunkRow) : TrunkConfig :=
  settings (trunkRowToConfig E (fun _ => 0) row (routesByTrunk store.routes row.name))

def Serves (l : TrunkTable) (row : TrunkRow) : Prop := ∃ t ∈ l, settings t = rowSettings E store row

/-- The rows of the store that are not to be applied yet are served. -/
structure Left (l : TrunkTable) (todo : List TrunkRow) : Prop where
  stored : todo ⊆ store.trunks
  served : ∀ row ∈ store.trunks, row ∈ todo ∨ Serves E store l row

structure Agrees (l : TrunkTable) : Prop where
  served : ∀ row ∈ store.trunks, Serves E store l row
  stored : ∀ t ∈ l, t.enabled = true → t.name ∈ store.trunks.map (·.name)

structure Sweeps (l todo : TrunkTable) : Prop where
  served : ∀ row ∈ store.trunks, Serves E store l row
  stored : ∀ t ∈ l, t.enabled = true → t.name ∈ store.trunks.map (·.name) ∨ t ∈ todo
  named : ∀ t' ∈ todo, ∀ t ∈ l, t.id = t'.id → t.name = t'.name

/-- How far a request is that has seen the store as it is. -/
def Progress (l : TrunkTable) : Phase → Prop
  | .listed seen => seen = store
  | .looking seen todo => seen = store ∧ Left E store l todo
  | .found seen cfg existing todo =>
      seen = store ∧ existing = findByName l cfg.name ∧
        ∃ row, Left E store l (row :: todo) ∧ settings cfg = rowSettings E store row
  | .resolved seen cfg known todo =>
      seen = store ∧ known = (findByName l cfg.name).isSome ∧
        ∃ row, Left E store l (row :: todo) ∧ settings cfg = rowSettings E store row
  | .sweeping seen todo => seen = store ∧ Sweeps E store l todo
  | _ => True

end Serving

variable {E : Env} {store : Store} {table l : TrunkTable} {phase : Phase} {t cfg : TrunkConfig} {row : TrunkRow}

theorem name_of_settings (h : settings t = rowSettings E store row) : t.name = row.name := congrArg (·.name) h

theorem findByName_isSome {name : List Char} : (findByName l name).isSome ↔ name ∈ l.map (·.name) := by
  simp [findByName, List.find?_isSome]

theorem Unique.sublist {l' : TrunkTable} (h : Unique l) (hsub : List.Sublist l' l) : Unique l' :=
  ⟨(hsub.map _).nodup h.names, (hsub.map _).nodup h.ids⟩

theorem New.sublist {l' : TrunkTable} (h : New l cfg) (hsub : List.Sublist l' l) : New l' cfg :=
  ⟨fun hin => h.1 ((hsub.map _).subset hin), fun hin => h.2 ((hsub.map _).subset hin)⟩

theorem Ready.sublist {l' : TrunkTable} (h : Ready l phase) (hsub : List.Sublist l' l) : Ready l' phase := by
  unfold Ready at *
  split
  · exact New.sublist h hsub
  · exact New.sublist h hsub
  · trivial

theorem Unique.addTrunk (h : Unique l) (hnew : New l cfg) : Unique (addTrunk l cfg) := by
  constructor
  · rw [Hydration.addTrunk, List.map_append]
    exact h.names.append (List.nodup_singleton _) (List.disjoint_singleton.mpr hnew.1)
  · rw [Hydration.addTrunk, List.map_append]
    exact h.ids.append (List.nodup_singleton _) (List.disjoint_singleton.mpr hnew.2)

attribute [elab_as_elim] act.fun_cases_unfolding

theorem act_unique (E : Env) (store : Store) (a : Act) (hunique : Unique table) (hready : Ready table phase) :
    Unique (act E store table phase a).2.1 ∧
      Ready (act E store table phase a).2.1 (act E store table phase a).2.2 := by
  fun_cases act E store table phase a
  case case1 w _ _ => exact ⟨hunique, by cases w <;> trivial⟩
  case case3 name => exact ⟨hunique.sublist (removeByName_sublist name table), trivial⟩
  case case9 seen row todo id hid =>
    refine ⟨hunique, ?_⟩
    cases hfound : findByName table row.name with
    | some existing => trivial
    | none =>
        refine ⟨fun hin => ?_, hid⟩
        have hsome := findByName_isSome.mpr hin
        change (findByName table row.name).isSome at hsome
        rw [hfound] at hsome
        cases hsome
  case case11 seen cfg existing todo addr =>
    refine ⟨hunique, ?_⟩
    cases existing with
    | some existing => trivial
    | none => exact ⟨by simpa using hready.1, by simpa using hready.2⟩
  case case12 seen cfg known todo =>
    refine ⟨?_, trivial⟩
    cases known with
    | true =>
        refine ⟨?_, ?_⟩
        · rw [if_pos rfl, names_updateTrunkByName]
          exact hunique.names
        · rw [if_pos rfl, ids_updateTrunkByName]
          exact hunique.ids
    | false => exact hunique.addTrunk hready
  case case13 seen t todo =>
    refine ⟨?_, trivial⟩
    split
    · refine ⟨?_, ?_⟩
      · rw [names_disableTrunk]
        exact hunique.names
      · rw [ids_disableTrunk]
        exact hunique.ids
    · exact hunique
  case case15 => exact ⟨hunique, hready⟩
  all_goals exact ⟨hunique, trivial⟩

section Rows

variable {todo : List TrunkRow}

theorem Left.tail (h : Left E store l (row :: todo)) (hrow : Serves E store l row) : Left E store l todo := by
  refine ⟨List.subset_of_cons_subset h.stored, fun row' hrow' => ?_⟩
  rcases h.served row' hrow' with hin | hserved
  · rcases List.mem_cons.mp hin with rfl | hin
    · exact .inr hrow
    · exact .inl hin
  · exact .inr hserved

/-- The update for a row serves it, and leaves the rows of other names. -/
theorem Left.update (h : Left E store l (row :: todo)) (hcfg : settings cfg = rowSettings E store row) {known : Bool}
    (hknown : known = (findByName l cfg.name).isSome) :
    Left E store (if known then updateTrunkByName l cfg.name cfg else addTrunk l cfg) todo := by
  have hrow : row ∈ store.trunks := h.stored List.mem_cons_self
  have hname : cfg.name = row.name := name_of_settings hcfg
  have hothers (t : TrunkConfig) (ht : t ∈ l) (hne : t.name ≠ cfg.name) :
      t ∈ if known then updateTrunkByName l cfg.name cfg else addTrunk l cfg := by
    split
    · obtain heq | ⟨existing, _, heq⟩ := updateTrunkByName_eq l cfg.name cfg
      · rw [heq]
        exact ht
      · rw [heq]
        exact mem_writeFirst_of_ne ht hne
    · exact List.mem_append_left _ ht
  have hserves : Serves E store (if known then updateTrunkByName l cfg.name cfg else addTrunk l cfg) row := by
    split
    next hsome =>
      rw [hknown] at hsome
      obtain ⟨existing, hfound⟩ := Option.isSome_iff_exists.mp hsome
      refine ⟨merged existing cfg, ?_, hcfg⟩
      rw [updateTrunkByName, hfound]
      exact mem_writeFirst_self hsome
    · exact ⟨cfg, List.mem_append_right _ (List.mem_singleton_self _), hcfg⟩
  refine ⟨List.subset_of_cons_subset h.stored, fun row' hrow' => ?_⟩
  rcases h.served row' hrow' with hin | ⟨t, ht, hsettings⟩
  · rcases List.mem_cons.mp hin with rfl | hin
    · exact .inr hserves
    · exact .inl hin
  · by_cases hsame : row'.name = row.name
    · have heq : row' = row := List.inj_on_of_nodup_map store.nodup hrow' hrow hsame
      rw [heq]
      exact .inr hserves
    · refine .inr ⟨t, hothers t ht ?_, hsettings⟩
      rw [name_of_settings hsettings, hname]
      exact hsame

end Rows

section Sweep

variable {todo : TrunkTable}

theorem sweeps_start (hunique : Unique l) (h : Left E store l []) : Sweeps E store l l where
  served row hrow := (h.served row hrow).resolve_left List.not_mem_nil
  stored t ht _ := .inr ht
  named t' ht' t ht hid := by
    rw [List.inj_on_of_nodup_map hunique.ids ht ht' hid]

theorem Sweeps.disable (h : Sweeps E store l (t :: todo)) :
    Sweeps E store (if t.name ∉ store.trunks.map (·.name) ∧ t.enabled then disableTrunk t.id l else l) todo := by
  split
  next habsent =>
    refine ⟨fun row hrow => ?_, fun t' ht' henabled => ?_, fun t' ht' t'' ht'' hid => ?_⟩
    · obtain ⟨t', ht', hsettings⟩ := h.served row hrow
      refine ⟨t', mem_disableTrunk_of_ne ht' fun hid => habsent.1 ?_, hsettings⟩
      rw [← h.named t List.mem_cons_self t' ht' hid, name_of_settings hsettings]
      exact List.mem_map_of_mem hrow
    · rcases mem_disableTrunk ht' with ⟨hin, hne⟩ | ⟨_, _, _, rfl⟩
      · refine (h.stored t' hin henabled).imp_right fun hmem => ?_
        rcases List.mem_cons.mp hmem with rfl | hmem
        · exact absurd rfl hne
        · exact hmem
      · cases henabled
    · rcases mem_disableTrunk ht'' with ⟨hin, _⟩ | ⟨t₀, hin, _, rfl⟩
      · exact h.named t' (List.mem_cons_of_mem _ ht') t'' hin hid
      · exact h.named t' (List.mem_cons_of_mem _ ht') t₀ hin hid
  next hkept =>
    refine ⟨h.served, fun t' ht' henabled => ?_, fun t' ht' => h.named t' (List.mem_cons_of_mem _ ht')⟩
    rcases h.stored t' ht' henabled with hname | hmem
    · exact .inl hname
    · rcases List.mem_cons.mp hmem with rfl | hmem
      · exact .inl (by_contra fun hname => hkept ⟨hname, henabled⟩)
      · exact .inr hmem

theorem Sweeps.agrees (h : Sweeps E store l []) : Agrees E store l :=
  ⟨h.served, fun t ht henabled => (h.stored t ht henabled).resolve_right List.not_mem_nil⟩

end Sweep

theorem act_progress (a : Act) (hunique : Unique table) (h : Progress E store table phase) :
    Progress E store (act E store table phase a).2.1 (act E store table phase a).2.2 := by
  fun_cases act E store table phase a
  case case1 w _ _ => cases w <;> trivial
  case case4 => rfl
  case case6 seen =>
    obtain rfl : seen = store := h
    exact ⟨rfl, List.Subset.refl _, fun row hrow => .inl hrow⟩
  case case8 => exact h
  case case9 seen row todo id _ =>
    obtain ⟨rfl, hleft⟩ := h
    exact ⟨rfl, rfl, row, hleft, rfl⟩
  case case10 seen id =>
    obtain ⟨rfl, hleft⟩ := h
    exact ⟨rfl, sweeps_start hunique hleft⟩
  case case11 seen cfg existing todo addr =>
    obtain ⟨rfl, rfl, row, hleft, hsettings⟩ := h
    exact ⟨rfl, by rw [name_destined], row, hleft, by rw [settings_destined, hsettings]⟩
  case case12 seen cfg known todo =>
    obtain ⟨rfl, hknown, row, hleft, hsettings⟩ := h
    exact ⟨rfl, hleft.update hsettings hknown⟩
  case case13 seen t todo =>
    obtain ⟨rfl, hsweeps⟩ := h
    exact ⟨rfl, hsweeps.disable⟩
  case case15 => exact h
  all_goals trivial

/-- A request that writes the store has still to list it. -/
theorem act_store (a : Act) :
    (act E store table phase a).1 = store ∨ Pending (act E store table phase a).2.2 := by
  fun_cases act E store table phase a
  case case1 w _ _ => exact .inr (by cases w <;> trivial)
  all_goals exact .inl rfl

/-- An application starts with the listing of a pending request. -/
theorem applying_act (a : Act) (h : Applying (act E store table phase a).2.2) :
    Applying phase ∨ a = .listTrunks ∧ phase = .pending := by
  fun_cases act E store table phase a
  case case1 w _ hw =>
    exfalso
    cases w <;> simp [act, hw, afterWrite, Applying] at h
  case case2 hw => simp [act, hw, Applying] at h
  case case4 => exact .inr ⟨rfl, rfl⟩
  case case15 => exact .inl (by simpa [act] using h)
  all_goals first | exact .inl trivial | exact h.elim

theorem pending_act (a : Act) (hpending : Pending phase) (h : ¬Pending (act E store table phase a).2.2) :
    phase = .pending ∧ (a = .listTrunks ∨ a = .listFails) := by
  fun_cases act E store table phase a
  case case4 => exact ⟨rfl, .inl rfl⟩
  case case5 => exact ⟨rfl, .inr rfl⟩
  case case15 => exact absurd hpending (by simpa [act] using h)
  all_goals first | exact hpending.elim | exact absurd trivial h

/-- Outside an application only a removal touches the table. -/
theorem act_sublist (a : Act) (h : ¬Applying phase) : List.Sublist (act E store table phase a).2.1 table := by
  fun_cases act E store table phase a
  case case3 name => exact removeByName_sublist name table
  all_goals first | exact List.Sublist.refl _ | exact absurd trivial h

theorem act_table (a : Act) (h : ¬Applying phase) (hpending : ¬Pending (act E store table phase a).2.2) :
    (act E store table phase a).2.1 = table := by
  fun_cases act E store table phase a
  case case3 => exact absurd trivial hpending
  all_goals first | rfl | exact absurd trivial h

/-- An application that ends has swept the table. -/
theorem act_agrees (a : Act) (ha : a ≠ .listFails) (h : Progress E store table phase) (happlying : Applying phase)
    (hend : ¬Applying (act E store table phase a).2.2) : Agrees E store (act E store table phase a).2.1 := by
  fun_cases act E store table phase a
  case case7 => exact absurd rfl ha
  case case14 => exact h.2.agrees
  case case8 hid => simp [act, hid, Applying] at hend
  case case9 hid => simp [act, hid, Applying] at hend
  case case15 => exact absurd happlying (by simpa [act] using hend)
  all_goals first | exact absurd trivial hend | exact happlying.elim

theorem ready_of_not_applying (h : ¬Applying phase) : Ready l phase := by
  cases phase <;> first | trivial | exact absurd trivial h

theorem progress_of_not_applying (h : ¬Applying phase) : Progress E store l phase := by
  cases phase <;> first | trivial | exact absurd trivial h

section Runs

variable {ι : Type} [DecidableEq ι] {c : Cfg ι}

structure Inv (E : Env) (c : Cfg ι) : Prop where
  unique : Unique c.table
  ready : ∀ i, Ready c.table (c.phase i)
  alone : ∀ i j, Applying (c.phase i) → Applying (c.phase j) → i = j
  progress : (∀ i, ¬Pending (c.phase i)) → ∀ i, Progress E c.store c.table (c.phase i)
  agrees : (∀ i, ¬Pending (c.phase i)) → (∀ i, ¬Applying (c.phase i)) → Agrees E c.store c.table

/-- No request lists the trunks while another one applies what it has listed, and no listing fails. -/
def Orderly (c : Cfg ι) : ι × Act → Prop
  | (i, .listTrunks) => c.phase i = .pending → ∀ j, ¬Applying (c.phase j)
  | (_, .listFails) => False
  | _ => True

theorem step_self (i : ι) (a : Act) :
    (TrunkApplications.step E c (i, a)).phase i = (act E c.store c.table (c.phase i) a).2.2 :=
  Function.update_self _ _ _

theorem step_other {i j : ι} (h : j ≠ i) (a : Act) : (TrunkApplications.step E c (i, a)).phase j = c.phase j :=
  Function.update_of_ne h _ _

omit [DecidableEq ι] in
theorem Inv.apart {i j : ι} {a : Act} (h : Inv E c) (ha : Orderly c (i, a))
    (happlying : Applying (act E c.store c.table (c.phase i) a).2.2) (hj : Applying (c.phase j)) : j = i := by
  rcases applying_act a happlying with hi | ⟨rfl, hpending⟩
  · exact h.alone j i hj hi
  · exact absurd hj (ha hpending j)

theorem Inv.step_alone {i : ι} {a : Act} (h : Inv E c) (ha : Orderly c (i, a)) (j k : ι)
    (hj : Applying ((TrunkApplications.step E c (i, a)).phase j))
    (hk : Applying ((TrunkApplications.step E c (i, a)).phase k)) : j = k := by
  by_cases hji : j = i
  · subst hji
    by_cases hkj : k = j
    · exact hkj.symm
    · rw [step_self] at hj
      rw [step_other hkj] at hk
      exact (h.apart ha hj hk).symm
  · rw [step_other hji] at hj
    by_cases hki : k = i
    · subst hki
      rw [step_self] at hk
      exact h.apart ha hk hj
    · rw [step_other hki] at hk
      exact h.alone j k hj hk

/-- Where no request is pending after a step, either none was before it or the step
has listed the trunks, which only happens while no other request applies. -/
theorem not_pending_before {i : ι} {a : Act} (ha : Orderly c (i, a))
    (hnone : ∀ j, ¬Pending ((TrunkApplications.step E c (i, a)).phase j)) :
    (∀ j, ¬Pending (c.phase j)) ∨ a = .listTrunks ∧ c.phase i = .pending := by
  by_cases hi : Pending (c.phase i)
  · have hafter := hnone i
    rw [step_self] at hafter
    obtain ⟨hphase, rfl | rfl⟩ := pending_act a hi hafter
    · exact .inr ⟨rfl, hphase⟩
    · exact ha.elim
  · refine .inl fun j => ?_
    by_cases hji : j = i
    · rw [hji]
      exact hi
    · have hafter := hnone j
      rwa [step_other hji] at hafter

theorem Inv.step (h : Inv E c) {a : ι × Act} (ha : Orderly c a) : Inv E (step E c a) := by
  obtain ⟨i, a⟩ := a
  have hact := act_unique E c.store a h.unique (h.ready i)
  refine ⟨hact.1, fun j => ?_, h.step_alone ha, fun hnone j => ?_, fun hnone hquiet => ?_⟩
  · by_cases hji : j = i
    · subst hji
      rw [step_self]
      exact hact.2
    · rw [step_other hji]
      by_cases hj : Applying (c.phase j)
      · exact (h.ready j).sublist (act_sublist a fun hi => hji (h.alone j i hj hi))
      · exact ready_of_not_applying hj
  · have hi := hnone i
    rw [step_self] at hi
    have hstore : (TrunkApplications.step E c (i, a)).store = c.store := (act_store a).resolve_right hi
    rw [hstore]
    by_cases hji : j = i
    · subst hji
      rw [step_self]
      refine act_progress a h.unique ?_
      rcases not_pending_before ha hnone with hbefore | ⟨_, hphase⟩
      · exact h.progress hbefore j
      · rw [hphase]
        trivial
    · rw [step_other hji]
      by_cases hj : Applying (c.phase j)
      · rcases not_pending_before ha hnone with hbefore | ⟨rfl, hphase⟩
        · have htable : (TrunkApplications.step E c (i, a)).table = c.table :=
            act_table a (fun happlying => hji (h.alone j i hj happlying)) hi
          rw [htable]
          exact h.progress hbefore j
        · exact absurd hj (ha hphase j)
      · exact progress_of_not_applying hj
  · have hi := hnone i
    have hend := hquiet i
    rw [step_self] at hi hend
    have hstore : (TrunkApplications.step E c (i, a)).store = c.store := (act_store a).resolve_right hi
    rw [hstore]
    rcases not_pending_before ha hnone with hbefore | ⟨rfl, hphase⟩
    · by_cases happlying : Applying (c.phase i)
      · refine act_agrees a ?_ (h.progress hbefore i) happlying hend
        rintro rfl
        exact ha
      · have htable : (TrunkApplications.step E c (i, a)).table = c.table := act_table a happlying hi
        rw [htable]
        refine h.agrees hbefore fun j => ?_
        by_cases hji : j = i
        · rw [hji]
          exact happlying
        · have hafter := hquiet j
          rwa [step_other hji] at hafter
    · rw [hphase] at hend
      exact absurd trivial hend

end Runs

def Finished : Phase → Prop
  | .idle | .done | .failed => True
  | _ => False

/-- The enabled trunks of the manager have the settings of the enabled rows, and no name is there twice. -/
def Converged (E : Env) (store : Store) (l : TrunkTable) : Prop :=
  (∀ s, (∃ t ∈ l, t.enabled = true ∧ settings t = s) ↔
    ∃ row ∈ store.trunks, row.enabled = true ∧ rowSettings E store row = s) ∧ (l.map (·.name)).Nodup

theorem Agrees.converged (h : Agrees E store l) (hunique : Unique l) : Converged E store l := by
  refine ⟨fun s => ⟨?_, ?_⟩, hunique.names⟩
  · rintro ⟨t, ht, henabled, rfl⟩
    obtain ⟨row, hrow, hname⟩ := List.mem_map.mp (h.stored t ht henabled)
    obtain ⟨t', ht', hsettings⟩ := h.served row hrow
    have heq : t' = t :=
      List.inj_on_of_nodup_map hunique.names ht' ht ((name_of_settings hsettings).trans hname)
    subst heq
    refine ⟨row, hrow, ?_, hsettings.symm⟩
    rw [← henabled]
    exact (congrArg (·.enabled) hsettings).symm
  · rintro ⟨row, hrow, henabled, rfl⟩
    obtain ⟨t, ht, hsettings⟩ := h.served row hrow
    refine ⟨t, ht, ?_, hsettings⟩
    rw [← henabled]
    exact congrArg (·.enabled) hsettings

/-- Once every request of an orderly run has finished, the manager has converged to the store. -/
theorem runtime_converges (E : Env) {ι : Type} [DecidableEq ι] (store : Store) (table : TrunkTable)
    (hunique : Unique table) (hagrees : Agrees E store table) (actions : List (ι × Act))
    (hrun : Throughout (step E) Orderly (start ι store table) actions)
    (hfinished : ∀ i, Finished ((actions.foldl (step E) (start ι store table)).phase i)) :
    Converged E (actions.foldl (step E) (start ι store table)).store
      (actions.foldl (step E) (start ι store table)).table := by
  have hstart : Inv E (start ι store table) :=
    ⟨hunique, fun _ => trivial, fun _ _ hi => hi.elim, fun _ _ => trivial, fun _ _ => hagrees⟩
  have hstep (c : Cfg ι) (a : ι × Act) (hc : Inv E c) (ha : Orderly c a) : Inv E (step E c a) := hc.step ha
  have hinv : Inv E (actions.foldl (step E) (start ι store table)) := invariant_run (I := Inv E) hstep hstart hrun
  have hidle (i : ι) : ¬Pending ((actions.foldl (step E) (start ι store table)).phase i) ∧
      ¬Applying ((actions.foldl (step E) (start ι store table)).phase i) := by
    have hi := hfinished i
    revert hi
    cases (actions.foldl (step E) (start ι store table)).phase i <;> simp [Finished, Pending, Applying]
  exact (hinv.agrees (fun i => (hidle i).1) fun i => (hidle i).2).converged hinv.unique

def gateway (enabled : Bool) : TrunkRow where
  name := "gw".toList
  enabled := enabled
  host := "sip.example.com".toList
  port := 5060
  transport := "UDP".toList
  authRequired := false
  username := none
  password := none
  realm := none
  registerWithTrunk := false
  registrationInterval := 300
  prefixPatterns := "[]".toList
  priority := 100
  weight := 100
  costPerMinute := 0
  numberFormat := "e164".toList
  countryCode := none
  nationalPrefix := none
  callerNumberFormat := none
  callerNumberOverride := none
  callerDisplayName := none
  allowedCodecs := "[]".toList
  maxConcurrentCalls := 100
  tlsSni := none
  tlsCaCert := none
  tlsVerify := true
  tlsClientCert := none
  tlsClientKey := none

def emptyStore : Store := ⟨[], [], List.nodup_nil⟩

def served (actions : List (Bool × Act)) : Cfg Bool :=
  actions.foldl (step HydrationFailures.plainEnv) (start Bool emptyStore [])

/-- A request that creates the gateway. -/
def created : List (Bool × Act) :=
  [(false, .write (.upsert (gateway true))), (false, .listTrunks), (false, .listRoutes), (false, .look 1),
    (false, .resolve none), (false, .update), (false, .look 0), (false, .disable), (false, .disable)]

theorem runtime_converges_created :
    Converged HydrationFailures.plainEnv (served created).store (served created).table := by
  refine runtime_converges HydrationFailures.plainEnv emptyStore [] ?_ ?_ created ?_ ?_
  · exact ⟨List.nodup_nil, List.nodup_nil⟩
  · exact ⟨fun row hrow => absurd hrow List.not_mem_nil, fun t ht => absurd ht List.not_mem_nil⟩
  · refine ⟨trivial, fun _ j => ?_, trivial, trivial, trivial, trivial, trivial, trivial, trivial, trivial⟩
    cases j <;> exact id
  · intro i
    cases i <;> trivial

/-- Both requests look the name up before either adds it. -/
def addedTwice : List (Bool × Act) :=
  [(false, .write (.upsert (gateway true))), (true, .write (.upsert (gateway true))), (false, .listTrunks),
    (true, .listTrunks), (false, .listRoutes), (true, .listRoutes), (false, .look 1), (true, .look 2),
    (false, .resolve none), (true, .resolve none), (false, .update), (true, .update), (false, .look 0),
    (true, .look 0), (false, .disable), (false, .disable), (false, .disable), (true, .disable), (true, .disable),
    (true, .disable)]

/-- The gateway is disabled while the request that created it waits for its address. -/
def appliedLate : List (Bool × Act) :=
  [(false, .write (.upsert (gateway true))), (false, .listTrunks), (true, .write (.upsert (gateway false))),
    (true, .listTrunks), (true, .listRoutes), (true, .look 1), (true, .resolve none), (true, .update),
    (true, .look 0), (true, .disable), (true, .disable), (false, .listRoutes), (false, .look 2),
    (false, .resolve none), (false, .update), (false, .look 0), (false, .disable), (false, .disable)]

theorem concurrent_writes_diverge :
    ((∀ i, Finished ((served addedTwice).phase i)) ∧
      ¬Converged HydrationFailures.plainEnv (served addedTwice).store (served addedTwice).table) ∧
      (∀ i, Finished ((served appliedLate).phase i)) ∧
        ¬Converged HydrationFailures.plainEnv (served appliedLate).store (served appliedLate).table := by
  refine ⟨⟨fun i => by cases i <;> trivial, ?_⟩, fun i => by cases i <;> trivial, ?_⟩
  · rintro ⟨_, hnodup⟩
    have hnames : (served addedTwice).table.map (·.name) = ["gw".toList, "gw".toList] := rfl
    rw [hnames] at hnodup
    exact absurd hnodup (by decide)
  · rintro ⟨hsame, _⟩
    have hrows : (served appliedLate).store.trunks = [gateway false] := rfl
    have htable : ∃ t ∈ (served appliedLate).table, t.enabled = true := ⟨_, List.mem_cons_self, rfl⟩
    obtain ⟨t, ht, henabled⟩ := htable
    obtain ⟨row, hrow, hon, _⟩ := (hsame _).mp ⟨t, ht, henabled, rfl⟩
    rw [hrows, List.mem_singleton] at hrow
    subst hrow
    cases hon

/-- A reload leaves the manager as the requests expect to find it. -/
theorem agrees_of_inSync {p : Pass} (h : HydrationFailures.TrunksInSync E p l) :
    Agrees E ⟨p.store.trunks, p.store.routes, p.store.trunks_nodup⟩ l := by
  refine ⟨fun row hrow => ?_, h.others⟩
  obtain ⟨t, hfound, hsettings⟩ := h.stored row hrow
  exact ⟨t, List.mem_of_find?_eq_some hfound, hsettings⟩

end NixiSbc.TrunkConvergence
