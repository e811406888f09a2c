import NixiSbc.KeyedTable
import NixiSbc.Selection

namespace NixiSbc.Eviction

open KeyedTable Selection

variable {κ ν ω : Type}

/-- An order in which maps are iterated. None is promised, so it may be any. -/
structure Iteration (κ ν : Type) where
  order : Table κ ν → List (Sigma fun _ : κ => ν)
  perm : ∀ t, (order t).Perm t.entries

/-- The order of insertion, newest first. -/
def Iteration.newestFirst : Iteration κ ν := ⟨fun t => t.entries, fun _ => .refl _⟩

/-- How many keys have a property. -/
def countKeys (p : κ → Bool) (t : Table κ ν) : Nat := t.keys.countP p

theorem countKeys_le_size (p : κ → Bool) (t : Table κ ν) : countKeys p t ≤ size t :=
  List.countP_le_length.trans (List.length_map _).le

theorem countKeys_sweep_le (p : κ → Bool) (f : κ → ν → Option ν) (t : Table κ ν) :
    countKeys p (sweep f t) ≤ countKeys p t :=
  (keys_filterMap_sublist f t.entries).countP_le

section Choice

variable [LinearOrder ω] (I : Iteration κ ν) (age : ν → ω)

/-- The key of an entry of least age value, the first that the iteration meets. -/
def oldest (t : Table κ ν) : Option κ := (minByKey (fun e => age e.2) (I.order t)).map Sigma.fst

variable {I age}

theorem oldest_eq_none {t : Table κ ν} (h : oldest I age t = none) : size t = 0 := by
  have hnil : I.order t = [] := minByKey_eq_none.mp (Option.map_eq_none_iff.mp h)
  have hperm := I.perm t
  rw [hnil] at hperm
  rw [size, ← hperm.length_eq]
  rfl

end Choice

variable [DecidableEq κ]

theorem countKeys_erase (p : κ → Bool) {t : Table κ ν} {k : κ} (h : (t.lookup k).isSome = true) :
    countKeys p (t.erase k) + (p k).toNat = countKeys p t := by
  have hmem : k ∈ t.keys := AList.mem_keys.mp (AList.lookup_isSome.mp h)
  have hperm : t.keys.Perm (k :: t.keys.erase k) := List.perm_cons_erase hmem
  rw [countKeys, AList.keys_erase, countKeys, hperm.countP_eq, List.countP_cons]
  cases p k with
  | true => rfl
  | false => rfl

theorem countKeys_erase_le (p : κ → Bool) (t : Table κ ν) (k : κ) :
    countKeys p (t.erase k) ≤ countKeys p t := by
  rw [countKeys, AList.keys_erase]
  exact List.erase_sublist.countP_le

theorem countKeys_insert_present (p : κ → Bool) {t : Table κ ν} {k : κ} (v : ν)
    (h : (t.lookup k).isSome = true) : countKeys p (t.insert k v) = countKeys p t := by
  have hmem : k ∈ t.keys := AList.mem_keys.mp (AList.lookup_isSome.mp h)
  rw [countKeys, AList.keys_insert, (List.perm_cons_erase hmem).symm.countP_eq, countKeys]

theorem countKeys_insert_new (p : κ → Bool) {t : Table κ ν} {k : κ} (v : ν) (h : t.lookup k = none) :
    countKeys p (t.insert k v) = countKeys p t + (p k).toNat := by
  have hkeys : (t.insert k v).keys = k :: t.keys := by
    rw [AList.keys_insert, List.erase_of_not_mem (mt AList.mem_keys.mpr (AList.lookup_eq_none.mp h))]
  rw [countKeys, hkeys, List.countP_cons, countKeys]
  cases p k with
  | true => rfl
  | false => rfl

/-- The entries that satisfy a test which only one key can satisfy. -/
theorem order_filter_single (I : Iteration κ ν) (p : (Sigma fun _ : κ => ν) → Bool) {t : Table κ ν}
    {k : κ} (h : ∀ k' v, t.lookup k' = some v → p ⟨k', v⟩ = true → k' = k) :
    (I.order t).filter p = ((t.lookup k).filter fun v => p ⟨k, v⟩).toList.map (Sigma.mk k) := by
  have hmem (k' : κ) (v : ν) : (⟨k', v⟩ : Sigma fun _ : κ => ν) ∈ (I.order t).filter p ↔
      t.lookup k' = some v ∧ p ⟨k', v⟩ = true := by
    rw [List.mem_filter, (I.perm t).mem_iff, ← AList.mem_lookup_iff, Option.mem_def]
  have hnodup : ((I.order t).filter p).Nodup :=
    ((I.perm t).nodup_iff.mpr t.nodupKeys.nodup).filter _
  cases hv : (t.lookup k).filter fun v => p ⟨k, v⟩ with
  | none =>
      apply List.eq_nil_iff_forall_not_mem.mpr
      rintro ⟨k', v⟩ he
      obtain ⟨hlookup, hp⟩ := (hmem k' v).mp he
      obtain rfl := h k' v hlookup hp
      rw [hlookup, Option.filter_some, if_pos hp] at hv
      cases hv
  | some v =>
      obtain ⟨hlookup, hp⟩ := Option.filter_eq_some_iff.mp hv
      have hall : ∀ e ∈ (I.order t).filter p, e = ⟨k, v⟩ := by
        rintro ⟨k', v'⟩ he
        obtain ⟨hlookup', hp'⟩ := (hmem k' v').mp he
        obtain rfl := h k' v' hlookup' hp'
        cases hlookup.symm.trans hlookup'
        rfl
      have hin : (⟨k, v⟩ : Sigma fun _ : κ => ν) ∈ (I.order t).filter p := (hmem k v).mpr ⟨hlookup, hp⟩
      have hrep := List.eq_replicate_of_mem hall
      rw [hrep, List.nodup_replicate] at hnodup
      have hpos := List.length_pos_of_mem hin
      rw [hrep, show ((I.order t).filter p).length = 1 by omega]
      rfl

section Oldest

variable [LinearOrder ω] {I : Iteration κ ν} {age : ν → ω}

theorem oldest_spec {t : Table κ ν} {k : κ} (h : oldest I age t = some k) :
    ∃ v, t.lookup k = some v ∧ ∀ k' v', t.lookup k' = some v' → age v ≤ age v' := by
  obtain ⟨⟨k₀, v⟩, he, rfl⟩ := Option.map_eq_some_iff.mp h
  obtain ⟨hmem, hmin⟩ := minByKey_spec he
  refine ⟨v, AList.mem_lookup_iff.mpr ((I.perm t).subset hmem), ?_⟩
  intro k' v' hk'
  exact hmin ⟨k', v'⟩ ((I.perm t).symm.subset (AList.mem_lookup_iff.mp hk'))

variable (I age)

/-- Drop the oldest entry while the test holds, at most so many times. -/
def evict (full : Table κ ν → Bool) : Nat → Table κ ν → Table κ ν
  | 0, t => t
  | n + 1, t =>
      if full t then
        match oldest I age t with
        | some k => evict full n (t.erase k)
        | none => t
      else t

/-- Every round drops one entry, so there are no more rounds than entries. -/
def evictOldestWhile (full : Table κ ν → Bool) (t : Table κ ν) : Table κ ν :=
  evict I age full (size t) t

variable {I age} {full : Table κ ν → Bool} {t : Table κ ν}

theorem evict_of_not_full (h : full t = false) : evictOldestWhile I age full t = t := by
  rw [evictOldestWhile]
  cases size t with
  | zero => rfl
  | succ n => rw [evict, h, if_neg Bool.false_ne_true]

/-- One round of the loop. -/
theorem evict_of_full {k : κ} (h : full t = true) (hk : oldest I age t = some k) :
    evictOldestWhile I age full t = evictOldestWhile I age full (t.erase k) := by
  obtain ⟨v, hv, -⟩ := oldest_spec hk
  have hsize := size_erase (t := t) (k := k) (by rw [hv]; rfl)
  rw [evictOldestWhile, evictOldestWhile, ← hsize, evict, if_pos h, hk]

/-- Whatever is true of the map at the start, kept by every round and enough
when the test fails or the map is empty, holds of the result. -/
theorem evict_induction {P : Table κ ν → Table κ ν → Prop}
    (hstop : ∀ t, full t = false ∨ size t = 0 → P t t)
    (hround : ∀ t k t', full t = true → oldest I age t = some k → P (t.erase k) t' → P t t')
    (t : Table κ ν) : P t (evictOldestWhile I age full t) := by
  generalize hn : size t = n
  induction n generalizing t with
  | zero =>
      rw [evictOldestWhile, hn]
      exact hstop t (.inr hn)
  | succ n ih =>
      cases hfull : full t with
      | false =>
          rw [evict_of_not_full hfull]
          exact hstop t (.inl hfull)
      | true =>
          cases hk : oldest I age t with
          | none =>
              have := oldest_eq_none hk
              omega
          | some k =>
              obtain ⟨v, hv, -⟩ := oldest_spec hk
              have hsize := size_erase (t := t) (k := k) (by rw [hv]; rfl)
              rw [evict_of_full hfull hk]
              exact hround t k _ hfull hk (ih (t.erase k) (by omega))

variable (I age)

/-- The loop only takes entries away. -/
theorem lookup_evict (k : κ) (full : Table κ ν → Bool) (t : Table κ ν) :
    (evictOldestWhile I age full t).lookup k = t.lookup k ∨
      (evictOldestWhile I age full t).lookup k = none := by
  apply evict_induction (P := fun t t' => t'.lookup k = t.lookup k ∨ t'.lookup k = none)
  · intro t _
    exact .inl rfl
  · intro t k' t' _ _ ih
    by_cases hk : k = k'
    · subst hk
      rw [AList.lookup_erase] at ih
      exact .inr (ih.elim id id)
    · rwa [AList.lookup_erase_ne hk] at ih

theorem countKeys_evict_le (p : κ → Bool) (full : Table κ ν → Bool) (t : Table κ ν) :
    countKeys p (evictOldestWhile I age full t) ≤ countKeys p t := by
  apply evict_induction (P := fun t t' => countKeys p t' ≤ countKeys p t)
  · intro t _
    exact le_rfl
  · intro t k t' _ hk ih
    obtain ⟨v, hv, -⟩ := oldest_spec hk
    have herase := countKeys_erase p (t := t) (k := k) (by rw [hv]; rfl)
    omega

theorem size_evict_le (full : Table κ ν → Bool) (t : Table κ ν) :
    size (evictOldestWhile I age full t) ≤ size t := by
  apply evict_induction (P := fun t t' => size t' ≤ size t)
  · intro t _
    exact le_rfl
  · intro t k t' _ hk ih
    obtain ⟨v, hv, -⟩ := oldest_spec hk
    have herase := size_erase (t := t) (k := k) (by rw [hv]; rfl)
    omega

/-- A test that an empty map fails is failed in the end. -/
theorem evict_not_full (full : Table κ ν → Bool) (hempty : ∀ t, size t = 0 → full t = false) (t : Table κ ν) :
    full (evictOldestWhile I age full t) = false := by
  apply evict_induction (P := fun _ t' => full t' = false)
  · intro t hstop
    exact hstop.elim id (hempty t)
  · intro t k t' _ _ ih
    exact ih

end Oldest

end NixiSbc.Eviction
