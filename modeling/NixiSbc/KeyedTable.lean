import Mathlib.Data.List.AList
import Mathlib.Data.List.Induction

namespace NixiSbc.KeyedTable

variable {κ ν ω : Type}

/-- A finite map, with the order in which it is iterated. -/
abbrev Table (κ ν : Type) := AList fun _ : κ => ν

def keep (f : κ → ν → Option ν) (e : Sigma fun _ : κ => ν) : Option (Sigma fun _ : κ => ν) :=
  (f e.1 e.2).map (Sigma.mk e.1)

theorem keys_filterMap_sublist (f : κ → ν → Option ν) (l : List (Sigma fun _ : κ => ν)) :
    (l.filterMap (keep f)).keys.Sublist l.keys := by
  induction l with
  | nil => exact .slnil
  | cons e l ih =>
      rw [List.filterMap_cons]
      split
      next => exact ih.cons _
      next e' he =>
        obtain ⟨v, -, rfl⟩ := Option.map_eq_some_iff.mp he
        exact ih.cons_cons _

def size (t : Table κ ν) : Nat := t.entries.length

/-- Visit every entry once, and change or drop it. -/
def sweep (f : κ → ν → Option ν) (t : Table κ ν) : Table κ ν where
  entries := t.entries.filterMap (keep f)
  nodupKeys := (keys_filterMap_sublist f t.entries).nodup t.nodupKeys

/-- Keep the entries whose value has a property. -/
def retain (p : ν → Bool) (t : Table κ ν) : Table κ ν :=
  sweep (fun _ v => if p v then some v else none) t

/-- How many values have a property. -/
def count (p : ν → Bool) (t : Table κ ν) : Nat := t.entries.countP fun e => p e.2

theorem countP_cons_toNat (p : ν → Bool) (k : κ) (v : ν) (l : List (Sigma fun _ : κ => ν)) :
    (⟨k, v⟩ :: l : List (Sigma fun _ : κ => ν)).countP (fun e => p e.2) =
      l.countP (fun e => p e.2) + (p v).toNat := by
  rw [List.countP_cons]
  cases p v with
  | true => rfl
  | false => rfl

theorem entries_retain (p : ν → Bool) (t : Table κ ν) :
    (retain p t).entries = t.entries.filter fun e => p e.2 := by
  rw [retain, sweep, ← List.filterMap_eq_filter]
  apply List.filterMap_congr
  intro e _
  rw [keep, Option.guard_apply]
  cases p e.2 with
  | false => rfl
  | true => rfl

theorem size_retain (p : ν → Bool) (t : Table κ ν) : size (retain p t) = count p t := by
  rw [size, entries_retain, count, List.countP_eq_length_filter]

theorem size_sweep_le (f : κ → ν → Option ν) (t : Table κ ν) : size (sweep f t) ≤ size t :=
  List.length_filterMap_le _ _

theorem count_le_size (p : ν → Bool) (t : Table κ ν) : count p t ≤ size t := List.countP_le_length

/-- Nothing that is counted is lost when all of it is kept. -/
theorem count_retain {p q : ν → Bool} (h : ∀ v, p v = true → q v = true) (t : Table κ ν) :
    count p (retain q t) = count p t := by
  rw [count, entries_retain, List.countP_filter, count]
  apply List.countP_congr
  intro e _
  rw [Bool.and_eq_true, and_iff_left_iff_imp]
  exact h e.2

variable [DecidableEq κ]

theorem lookup_sweep (f : κ → ν → Option ν) (t : Table κ ν) (k : κ) :
    (sweep f t).lookup k = (t.lookup k).bind (f k) := by
  ext v
  rw [← Option.mem_def, AList.mem_lookup_iff, ← Option.mem_def, Option.mem_bind_iff]
  simp only [sweep, List.mem_filterMap, AList.mem_lookup_iff]
  constructor
  · rintro ⟨⟨k', v'⟩, hmem, heq⟩
    obtain ⟨w, hw, hsig⟩ := Option.map_eq_some_iff.mp heq
    cases hsig
    exact ⟨v', hmem, hw⟩
  · rintro ⟨v', hmem, hw⟩
    exact ⟨⟨k, v'⟩, hmem, Option.map_eq_some_iff.mpr ⟨v, hw, rfl⟩⟩

/-- Change the value under one key, if there is one, in its place. -/
def modify (k : κ) (f : ν → ν) (t : Table κ ν) : Table κ ν :=
  sweep (fun k' v => some (if k' = k then f v else v)) t

theorem lookup_modify_self (k : κ) (f : ν → ν) (t : Table κ ν) :
    (modify k f t).lookup k = (t.lookup k).map f := by
  rw [modify, lookup_sweep]
  cases t.lookup k with
  | none => rfl
  | some v => exact congrArg some (if_pos rfl)

theorem lookup_modify_ne {k k' : κ} (h : k ≠ k') (f : ν → ν) (t : Table κ ν) :
    (modify k' f t).lookup k = t.lookup k := by
  rw [modify, lookup_sweep]
  cases t.lookup k with
  | none => rfl
  | some v => exact congrArg some (if_neg h)

theorem lookup_modify_eq (k k' : κ) (f : ν → ν) (t : Table κ ν) :
    (modify k f t).lookup k' = (t.lookup k').map fun v => if k' = k then f v else v := by
  rw [modify, lookup_sweep]
  cases t.lookup k' with
  | none => rfl
  | some v => rfl

theorem size_modify (k : κ) (f : ν → ν) (t : Table κ ν) : size (modify k f t) = size t := by
  apply List.filterMap_length_eq_length.mpr
  intro e _
  rfl

/-- What a visit of the entries finds, with the keys. -/
def collect (g : κ → ν → Option ω) (t : Table κ ν) : List (κ × ω) :=
  t.entries.filterMap fun e => (g e.1 e.2).map (Prod.mk e.1)

theorem collect_at (g : κ → ν → Option ω) (t : Table κ ν) (k : κ) :
    (collect g t).filterMap (fun p => if p.1 = k then some p.2 else none) =
      ((t.lookup k).bind (g k)).toList := by
  obtain ⟨l, hl⟩ := t
  change (l.filterMap _).filterMap _ = ((l.dlookup k).bind (g k)).toList
  induction l with
  | nil => rfl
  | cons e l ih =>
      obtain ⟨k', v⟩ := e
      rw [List.nodupKeys_cons] at hl
      rw [List.filterMap_filterMap, List.filterMap_cons, ← List.filterMap_filterMap, ih hl.2]
      by_cases hk : k' = k
      · subst hk
        have hnone : List.dlookup k' l = none := List.dlookup_eq_none.mpr hl.1
        rw [hnone, List.dlookup_cons_eq]
        cases hg : g k' v with
        | none => simp [hg]
        | some w => simp [hg]
      · rw [List.dlookup_cons_ne _ _ (Ne.symm hk)]
        cases g k' v with
        | none => simp
        | some w => simp [hk]

theorem mem_collect {g : κ → ν → Option ω} {t : Table κ ν} {k : κ} {w : ω} :
    (k, w) ∈ collect g t ↔ ∃ v, t.lookup k = some v ∧ g k v = some w := by
  simp only [collect, List.mem_filterMap, Option.map_eq_some_iff, ← Option.mem_def (b := t.lookup k),
    AList.mem_lookup_iff]
  constructor
  · rintro ⟨⟨k', v⟩, hmem, w', hw, heq⟩
    cases heq
    exact ⟨v, hmem, hw⟩
  · rintro ⟨v, hmem, hw⟩
    exact ⟨⟨k, v⟩, hmem, w, hw, rfl⟩

theorem mem_keys_collect {g : κ → ν → Option ω} {t : Table κ ν} {k : κ} :
    k ∈ (collect g t).map Prod.fst ↔ ∃ v, t.lookup k = some v ∧ (g k v).isSome = true := by
  rw [List.mem_map]
  constructor
  · rintro ⟨⟨k', w⟩, hmem, rfl⟩
    obtain ⟨v, hv, hw⟩ := mem_collect.mp hmem
    exact ⟨v, hv, by rw [hw]; rfl⟩
  · rintro ⟨v, hv, hsome⟩
    obtain ⟨w, hw⟩ := Option.isSome_iff_exists.mp hsome
    exact ⟨(k, w), mem_collect.mpr ⟨v, hv, hw⟩, rfl⟩

theorem entries_perm_erase {t : Table κ ν} {k : κ} {v : ν} (h : t.lookup k = some v) :
    t.entries.Perm (⟨k, v⟩ :: (t.erase k).entries) := by
  have hmem : k ∈ t.entries.keys := AList.lookup_isSome.mp (by rw [h]; rfl)
  obtain ⟨w, before, after, -, hentries, herase⟩ := List.exists_of_kerase hmem
  have hw : t.lookup k = some w := by
    apply AList.mem_lookup_iff.mpr
    rw [hentries]
    exact List.mem_append_right _ List.mem_cons_self
  obtain rfl : v = w := Option.some_inj.mp (h.symm.trans hw)
  change t.entries.Perm (⟨k, v⟩ :: List.kerase k t.entries)
  rw [herase, hentries]
  exact List.perm_middle

theorem count_erase (p : ν → Bool) {t : Table κ ν} {k : κ} {v : ν} (h : t.lookup k = some v) :
    count p (t.erase k) + (p v).toNat = count p t := by
  obtain ⟨l, hl⟩ := t
  change (l.kerase k).countP _ + _ = l.countP _
  change l.dlookup k = some v at h
  induction l with
  | nil => cases h
  | cons e l ih =>
      obtain ⟨k', v'⟩ := e
      rw [List.nodupKeys_cons] at hl
      by_cases hk : k = k'
      · subst hk
        rw [List.dlookup_cons_eq] at h
        cases h
        have herase : List.kerase k (⟨k, v⟩ :: l) = l := List.kerase_cons_eq rfl
        rw [herase, countP_cons_toNat]
      · rw [List.dlookup_cons_ne _ _ hk] at h
        have herase : List.kerase k (⟨k', v'⟩ :: l) = ⟨k', v'⟩ :: l.kerase k := List.kerase_cons_ne hk
        rw [herase, countP_cons_toNat, countP_cons_toNat, ← ih hl.2 h]
        omega

theorem count_insert_new (p : ν → Bool) {t : Table κ ν} {k : κ} (v : ν) (h : t.lookup k = none) :
    count p (t.insert k v) = count p t + (p v).toNat := by
  rw [count, AList.entries_insert_of_notMem (AList.lookup_eq_none.mp h), countP_cons_toNat, count]

theorem filterMap_modify_absent {k : κ} (f : ν → ν) {l : List (Sigma fun _ : κ => ν)}
    (h : k ∉ l.keys) : l.filterMap (keep fun k' v => some (if k' = k then f v else v)) = l := by
  induction l with
  | nil => rfl
  | cons e l ih =>
      rw [List.keys_cons, List.mem_cons, not_or] at h
      rw [List.filterMap_cons, ih h.2]
      simp [keep, Ne.symm h.1]

theorem count_modify (p : ν → Bool) {t : Table κ ν} {k : κ} {v : ν} (f : ν → ν)
    (h : t.lookup k = some v) :
    count p (modify k f t) + (p v).toNat = count p t + (p (f v)).toNat := by
  obtain ⟨l, hl⟩ := t
  change (l.filterMap _).countP _ + _ = l.countP _ + _
  change l.dlookup k = some v at h
  induction l with
  | nil => cases h
  | cons e l ih =>
      obtain ⟨k', v'⟩ := e
      rw [List.nodupKeys_cons] at hl
      have hhead : keep (fun k' v => some (if k' = k then f v else v)) ⟨k', v'⟩ =
          some ⟨k', if k' = k then f v' else v'⟩ := rfl
      rw [List.filterMap_cons_some hhead, countP_cons_toNat, countP_cons_toNat]
      by_cases hk : k' = k
      · subst hk
        rw [List.dlookup_cons_eq] at h
        cases h
        rw [filterMap_modify_absent f hl.1, if_pos rfl]
        omega
      · rw [List.dlookup_cons_ne _ _ (Ne.symm hk)] at h
        have := ih hl.2 h
        rw [if_neg hk]
        omega

theorem lookup_retain (p : ν → Bool) (t : Table κ ν) (k : κ) :
    (retain p t).lookup k = (t.lookup k).filter p := by
  rw [retain, lookup_sweep]
  cases t.lookup k with
  | none => rfl
  | some v =>
      rw [Option.bind_some, Option.filter_some]

theorem lookup_of_lookup_retain {p : ν → Bool} {t : Table κ ν} {k : κ} {v : ν}
    (h : (retain p t).lookup k = some v) : t.lookup k = some v := by
  rw [lookup_retain] at h
  exact Option.eq_some_of_filter_eq_some h

theorem lookup_erase_eq (t : Table κ ν) (k k' : κ) :
    (t.erase k).lookup k' = if k' = k then none else t.lookup k' := by
  split
  next hk => rw [hk, AList.lookup_erase]
  next hk => rw [AList.lookup_erase_ne hk]

theorem lookup_insert_eq (t : Table κ ν) (k : κ) (v : ν) (k' : κ) :
    (t.insert k v).lookup k' = if k' = k then some v else t.lookup k' := by
  split
  next hk => rw [hk, AList.lookup_insert]
  next hk => rw [AList.lookup_insert_ne hk]

theorem erase_of_absent {t : Table κ ν} {k : κ} (h : t.lookup k = none) : t.erase k = t := by
  apply AList.ext
  exact List.kerase_of_notMem_keys (AList.lookup_eq_none.mp h)

theorem lookup_of_lookup_erase {t : Table κ ν} {k k' : κ} {v : ν}
    (h : (t.erase k').lookup k = some v) : t.lookup k = some v := by
  rw [lookup_erase_eq] at h
  split at h
  next => cases h
  next => exact h

theorem count_eq_size_iff (p : ν → Bool) (t : Table κ ν) :
    count p t = size t ↔ ∀ k v, t.lookup k = some v → p v = true := by
  rw [count, size, List.countP_eq_length]
  constructor
  · intro h k v hkv
    exact h ⟨k, v⟩ (AList.mem_lookup_iff.mp hkv)
  · intro h e he
    exact h e.1 e.2 (AList.mem_lookup_iff.mpr he)

theorem size_insert_new {t : Table κ ν} {k : κ} (v : ν) (h : t.lookup k = none) :
    size (t.insert k v) = size t + 1 := by
  rw [size, AList.entries_insert_of_notMem (AList.lookup_eq_none.mp h), List.length_cons, size]

theorem size_erase {t : Table κ ν} {k : κ} (h : (t.lookup k).isSome = true) :
    size (t.erase k) + 1 = size t := by
  obtain ⟨v, hv⟩ := Option.isSome_iff_exists.mp h
  have herase := count_erase (fun _ => true) hv
  simp only [count, List.countP_true, Bool.toNat_true] at herase
  exact herase

theorem size_erase_le (t : Table κ ν) (k : κ) : size (t.erase k) ≤ size t := by
  cases h : t.lookup k with
  | none => rw [erase_of_absent h]
  | some v =>
      have hsize := size_erase (t := t) (k := k) (by rw [h]; rfl)
      omega

theorem size_insert_le (t : Table κ ν) (k : κ) (v : ν) : size (t.insert k v) ≤ size t + 1 :=
  Nat.succ_le_succ (size_erase_le t k)

theorem size_insert_present {t : Table κ ν} {k : κ} (v : ν) (h : (t.lookup k).isSome = true) :
    size (t.insert k v) = size t :=
  size_erase h

/-- Rows of different keys fill an empty table, the last of them in front. -/
theorem entries_foldl_insert {ρ : Type} (key : ρ → κ) (val : ρ → ν) {rows : List ρ} (h : (rows.map key).Nodup) :
    (rows.foldl (fun t row => t.insert (key row) (val row)) (∅ : Table κ ν)).entries =
      (rows.map fun row => Sigma.mk (key row) (val row)).reverse := by
  induction rows using List.reverseRecOn with
  | nil => rfl
  | append_singleton rows row ih =>
      rw [List.map_append, List.nodup_append] at h
      have hnew : key row ∉ rows.foldl (fun t row => t.insert (key row) (val row)) (∅ : Table κ ν) := by
        intro hmem
        rw [AList.mem_keys, AList.keys, ih h.1, List.keys] at hmem
        simp only [List.map_reverse, List.map_map, List.mem_reverse] at hmem
        exact h.2.2 _ hmem _ (by simp) rfl
      rw [List.foldl_append, List.foldl_cons, List.foldl_nil, AList.entries_insert_of_notMem hnew, ih h.1]
      simp

theorem lookup_foldl_insert {ρ : Type} (key : ρ → κ) (val : ρ → ν) {rows : List ρ} (h : (rows.map key).Nodup) {k : κ} {v : ν} :
    (rows.foldl (fun t row => t.insert (key row) (val row)) (∅ : Table κ ν)).lookup k = some v ↔
      ∃ row ∈ rows, key row = k ∧ val row = v := by
  rw [← Option.mem_def, AList.mem_lookup_iff, entries_foldl_insert key val h]
  simp

end NixiSbc.KeyedTable
