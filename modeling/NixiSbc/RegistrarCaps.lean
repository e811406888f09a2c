import NixiSbc.Registrar
import NixiSbc.StateRuns

namespace NixiSbc.RegistrarCaps

open KeyedTable Eviction Registrar

inductive Call
  | register (reg : Registration)
  | unregisterBinding (aor key : List Char) (dialog : Option Dialog)
  | unregisterAll (aor : List Char) (dialog : Option Dialog)
  | cleanupExpired

def step (I : Iteration RegKey Registration) (s : InMemoryRegistrar) : Nat × Call → InMemoryRegistrar
  | (_, .register reg) => (register I s reg).2
  | (now, .unregisterBinding aor key dialog) => (unregisterBinding s now aor key dialog).2
  | (now, .unregisterAll aor dialog) => (unregisterAll I s now aor dialog).2
  | (now, .cleanupExpired) => (cleanupExpired I s now).2

/-- No address of record holds too many bindings, nor does the table. -/
structure Caps (m : Table RegKey Registration) : Prop where
  perAor : ∀ aor, countKeys (ofAor aor) m ≤ maxBindingsPerAor
  total : size m ≤ maxBindingsTotal

/-- The key is that of an oldest binding of the address of record. -/
def OldestOf (aor : List Char) (m : Table RegKey Registration) (k : RegKey) : Prop :=
  k.1 = aor ∧ ∃ r, m.lookup k = some r ∧ ∀ k' r', k'.1 = aor → m.lookup k' = some r' → age r ≤ age r'

/-- What a registration promises: the others keep their bindings unless the table
is full, a full address of record loses an oldest binding of its own and no
other, and the bounds hold afterwards. -/
structure RegisterContract (I : Iteration RegKey Registration) (s : InMemoryRegistrar)
    (reg : Registration) : Prop where
  others : size s.regs < maxBindingsTotal → ∀ k : RegKey, k.1 ≠ reg.aor →
    (register I s reg).2.regs.lookup k = s.regs.lookup k
  own : s.regs.lookup reg.key = none → countKeys (ofAor reg.aor) s.regs = maxBindingsPerAor →
    ∃ k, OldestOf reg.aor s.regs k ∧
      (register I s reg).2.regs.lookup k = none ∧
      ∀ k' : RegKey, k'.1 = reg.aor → k' ≠ k → k' ≠ reg.key →
        (register I s reg).2.regs.lookup k' = s.regs.lookup k'
  caps : Caps (register I s reg).2.regs

/-- A new binding of a full address of record, in a table with room, when the
oldest binding of the whole table is another's. -/
def ForeignOldest (I : Iteration RegKey Registration) (s : InMemoryRegistrar) (reg : Registration) :
    Prop :=
  s.regs.lookup reg.key = none ∧ countKeys (ofAor reg.aor) s.regs = maxBindingsPerAor ∧
    size s.regs < maxBindingsTotal ∧ ∃ k, oldest I age s.regs = some k ∧ k.1 ≠ reg.aor

section

variable {I : Iteration RegKey Registration} {m : Table RegKey Registration} {aor : List Char}

theorem aorFull_iff : aorFull aor m = true ↔ maxBindingsPerAor ≤ countKeys (ofAor aor) m :=
  decide_eq_true_iff

theorem tableFull_iff : tableFull m = true ↔ maxBindingsTotal ≤ size m := decide_eq_true_iff

theorem aorFull_empty (h : size m = 0) : aorFull aor m = false := by
  rw [← Bool.not_eq_true, aorFull_iff, not_le]
  have hle := countKeys_le_size (ofAor aor) m
  rw [h] at hle
  exact hle.trans_lt (by decide)

theorem tableFull_empty (h : size m = 0) : tableFull m = false := by
  rw [← Bool.not_eq_true, tableFull_iff, h]
  decide

theorem countKeys_erase_own {k : RegKey} (hk : k.1 = aor) (h : (m.lookup k).isSome = true) :
    countKeys (ofAor aor) (m.erase k) + 1 = countKeys (ofAor aor) m := by
  have herase := countKeys_erase (ofAor aor) h
  rwa [show ofAor aor k = true from decide_eq_true hk] at herase

theorem countKeys_erase_other {k : RegKey} (hk : k.1 ≠ aor) (h : (m.lookup k).isSome = true) :
    countKeys (ofAor aor) (m.erase k) = countKeys (ofAor aor) m := by
  have herase := countKeys_erase (ofAor aor) h
  rwa [show ofAor aor k = false from decide_eq_false hk] at herase

/-- When the oldest binding of all is one of a full address of record, the loop
takes only that. -/
theorem evict_first_own {k : RegKey} (hfull : countKeys (ofAor aor) m = maxBindingsPerAor)
    (hk : oldest I age m = some k) (hown : k.1 = aor) :
    evictOldestWhile I age (aorFull aor) m = m.erase k := by
  obtain ⟨r, hr, -⟩ := oldest_spec hk
  have hcount := countKeys_erase_own hown (m := m) (by rw [hr]; rfl)
  rw [evict_of_full (aorFull_iff.mpr hfull.ge) hk, evict_of_not_full]
  rw [← Bool.not_eq_true, aorFull_iff]
  omega

/-- The loop for a full address of record takes one of its bindings, an oldest one. -/
theorem evict_own (I : Iteration RegKey Registration) (aor : List Char) (m : Table RegKey Registration)
    (hfull : countKeys (ofAor aor) m = maxBindingsPerAor) :
    ∃ k, OldestOf aor m k ∧ (evictOldestWhile I age (aorFull aor) m).lookup k = none ∧
      ∀ k' : RegKey, k'.1 = aor → k' ≠ k →
        (evictOldestWhile I age (aorFull aor) m).lookup k' = m.lookup k' := by
  -- the induction is on the number of bindings: those of others go first
  generalize hn : size m = n
  induction n generalizing m with
  | zero =>
      have hle := countKeys_le_size (ofAor aor) m
      rw [hfull, hn] at hle
      exact absurd hle (by decide)
  | succ n ih =>
      cases hk : oldest I age m with
      | none =>
          have hzero := oldest_eq_none hk
          omega
      | some k =>
          obtain ⟨r, hr, hmin⟩ := oldest_spec hk
          have hsome : (m.lookup k).isSome = true := by rw [hr]; rfl
          by_cases hown : k.1 = aor
          · rw [evict_first_own hfull hk hown]
            refine ⟨k, ⟨hown, r, hr, fun k' r' _ => hmin k' r'⟩, AList.lookup_erase k m, ?_⟩
            intro k' _ hne
            exact AList.lookup_erase_ne hne
          · have hsize := size_erase hsome
            obtain ⟨k₀, ⟨hown₀, r₀, hr₀, hmin₀⟩, hgone, hrest⟩ :=
              ih (m.erase k) ((countKeys_erase_other hown hsome).trans hfull) (by omega)
            have hother {k' : RegKey} (hk' : k'.1 = aor) : (m.erase k).lookup k' = m.lookup k' :=
              AList.lookup_erase_ne fun heq => hown (heq ▸ hk')
            rw [evict_of_full (aorFull_iff.mpr hfull.ge) hk]
            refine ⟨k₀, ⟨hown₀, r₀, (hother hown₀).symm.trans hr₀, ?_⟩, hgone, ?_⟩
            · intro k' r' hk' hr'
              exact hmin₀ k' r' hk' ((hother hk').trans hr')
            · intro k' hk' hne
              exact (hrest k' hk' hne).trans (hother hk')

theorem bounded_perAor (I : Iteration RegKey Registration) (aor : List Char)
    (m : Table RegKey Registration) : countKeys (ofAor aor) (bounded I aor m) < maxBindingsPerAor := by
  have hnot := evict_not_full I age (aorFull aor) (fun _ => aorFull_empty) m
  rw [← Bool.not_eq_true, aorFull_iff, not_le] at hnot
  exact (countKeys_evict_le I age _ _ _).trans_lt hnot

theorem bounded_total (I : Iteration RegKey Registration) (aor : List Char)
    (m : Table RegKey Registration) : size (bounded I aor m) < maxBindingsTotal := by
  have hnot := evict_not_full I age tableFull (fun _ => tableFull_empty)
    (evictOldestWhile I age (aorFull aor) m)
  rwa [← Bool.not_eq_true, tableFull_iff, not_le] at hnot

theorem bounded_lookup (I : Iteration RegKey Registration) (aor : List Char)
    (m : Table RegKey Registration) (k : RegKey) :
    (bounded I aor m).lookup k = m.lookup k ∨ (bounded I aor m).lookup k = none := by
  rcases lookup_evict I age k tableFull (evictOldestWhile I age (aorFull aor) m) with
    hsame | hnone
  · rw [bounded, hsame]
    exact lookup_evict I age k (aorFull aor) m
  · exact .inr hnone

/-- The table is not full after the first loop, if it held no more than it may. -/
theorem bounded_eq_of_lt (h : size (evictOldestWhile I age (aorFull aor) m) < maxBindingsTotal) :
    bounded I aor m = evictOldestWhile I age (aorFull aor) m := by
  apply evict_of_not_full
  rw [← Bool.not_eq_true, tableFull_iff, not_le]
  exact h

/-- With room under both bounds nothing is evicted. -/
theorem bounded_eq_self (haor : countKeys (ofAor aor) m < maxBindingsPerAor)
    (htotal : size m < maxBindingsTotal) : bounded I aor m = m := by
  have hsame : evictOldestWhile I age (aorFull aor) m = m := by
    apply evict_of_not_full
    rw [← Bool.not_eq_true, aorFull_iff, not_le]
    exact haor
  rw [bounded_eq_of_lt (by rw [hsame]; exact htotal), hsame]

theorem size_evict_lt (hfull : countKeys (ofAor aor) m = maxBindingsPerAor)
    (htotal : size m ≤ maxBindingsTotal) :
    size (evictOldestWhile I age (aorFull aor) m) < maxBindingsTotal := by
  cases hk : oldest I age m with
  | none =>
      have hle := countKeys_le_size (ofAor aor) m
      rw [hfull, oldest_eq_none hk] at hle
      exact absurd hle (by decide)
  | some k =>
      obtain ⟨r, hr, -⟩ := oldest_spec hk
      have hsize := size_erase (t := m) (k := k) (by rw [hr]; rfl)
      have hle := size_evict_le I age (aorFull aor) (m.erase k)
      rw [evict_of_full (aorFull_iff.mpr hfull.ge) hk]
      omega

end

section

variable {I : Iteration RegKey Registration} {s : InMemoryRegistrar} {reg : Registration}

theorem register_new (h : s.regs.lookup reg.key = none) :
    (register I s reg).2.regs = (bounded I reg.aor s.regs).insert reg.key reg := by
  rw [register, h]

theorem register_present {existing : Registration} (h : s.regs.lookup reg.key = some existing) :
    (register I s reg).2.regs = s.regs ∨
      ∃ stored, (register I s reg).2.regs = s.regs.insert reg.key stored := by
  simp only [register, h]
  split
  next => exact .inl rfl
  next => exact .inr ⟨_, rfl⟩

theorem register_present_ne {existing : Registration} (h : s.regs.lookup reg.key = some existing)
    {k : RegKey} (hne : k ≠ reg.key) : (register I s reg).2.regs.lookup k = s.regs.lookup k := by
  rcases register_present (I := I) h with hsame | ⟨stored, hins⟩
  · rw [hsame]
  · rw [hins, AList.lookup_insert_ne hne]

theorem register_new_ne (h : s.regs.lookup reg.key = none) {k : RegKey} (hne : k ≠ reg.key) :
    (register I s reg).2.regs.lookup k = (bounded I reg.aor s.regs).lookup k := by
  rw [register_new h, AList.lookup_insert_ne hne]

/-- A binding that is there is replaced, not added. -/
theorem register_present_counts {existing : Registration} (h : s.regs.lookup reg.key = some existing)
    (p : RegKey → Bool) :
    countKeys p (register I s reg).2.regs = countKeys p s.regs ∧
      size (register I s reg).2.regs = size s.regs := by
  rcases register_present (I := I) h with hsame | ⟨stored, hins⟩
  · rw [hsame]
    exact ⟨rfl, rfl⟩
  · have hsome : (s.regs.lookup reg.key).isSome = true := by rw [h]; rfl
    rw [hins]
    exact ⟨countKeys_insert_present _ _ hsome, size_insert_present _ hsome⟩

theorem bounded_new (h : s.regs.lookup reg.key = none) :
    (bounded I reg.aor s.regs).lookup reg.key = none :=
  (bounded_lookup I reg.aor s.regs reg.key).elim (fun hsame => hsame.trans h) id

theorem register_caps (hcaps : Caps s.regs) (reg : Registration) : Caps (register I s reg).2.regs := by
  cases h : s.regs.lookup reg.key with
  | some existing =>
      refine ⟨fun aor => ?_, ?_⟩
      · rw [(register_present_counts h _).1]
        exact hcaps.perAor aor
      · rw [(register_present_counts h fun _ => true).2]
        exact hcaps.total
  | none =>
      rw [register_new h]
      refine ⟨fun aor => ?_, ?_⟩
      · rw [countKeys_insert_new _ _ (bounded_new h)]
        by_cases hown : reg.aor = aor
        · subst hown
          rw [show ofAor reg.aor reg.key = true from decide_eq_true rfl]
          exact bounded_perAor I reg.aor s.regs
        · rw [show ofAor aor reg.key = false from decide_eq_false hown]
          exact (countKeys_evict_le I age _ _ _).trans ((countKeys_evict_le I age _ _ _).trans (hcaps.perAor aor))
      · rw [size_insert_new _ (bounded_new h)]
        exact bounded_total I reg.aor s.regs

/-- A binding of another address of record stays, or stays away, when there is room. -/
theorem register_other {k : RegKey} (hk : k.1 ≠ reg.aor)
    (hroom : s.regs.lookup k = none ∨
      countKeys (ofAor reg.aor) s.regs < maxBindingsPerAor ∧ size s.regs < maxBindingsTotal) :
    (register I s reg).2.regs.lookup k = s.regs.lookup k := by
  have hne : k ≠ reg.key := fun heq => hk (heq ▸ rfl)
  cases hnew : s.regs.lookup reg.key with
  | some existing => exact register_present_ne hnew hne
  | none =>
      rw [register_new_ne hnew hne]
      rcases hroom with hnone | ⟨haor, htotal⟩
      · exact (bounded_lookup I reg.aor s.regs k).elim id (fun hgone => hgone.trans hnone.symm)
      · rw [bounded_eq_self haor htotal]

/-- A registration adds one binding at most. -/
theorem register_adds_one (I : Iteration RegKey Registration) (s : InMemoryRegistrar)
    (reg : Registration) (p : RegKey → Bool) :
    countKeys p (register I s reg).2.regs ≤ countKeys p s.regs + 1 ∧
      size (register I s reg).2.regs ≤ size s.regs + 1 := by
  cases hnew : s.regs.lookup reg.key with
  | some existing =>
      obtain ⟨hcount, hsize⟩ := register_present_counts (I := I) hnew p
      rw [hcount, hsize]
      exact ⟨Nat.le_succ _, Nat.le_succ _⟩
  | none =>
      have hcount : countKeys p (bounded I reg.aor s.regs) ≤ countKeys p s.regs :=
        (countKeys_evict_le I age _ _ _).trans (countKeys_evict_le I age _ _ _)
      have hsize : size (bounded I reg.aor s.regs) ≤ size s.regs :=
        (size_evict_le I age _ _).trans (size_evict_le I age _ _)
      have hbool : (p reg.key).toNat ≤ 1 := Bool.toNat_le _
      rw [register_new hnew, countKeys_insert_new _ _ (bounded_new hnew),
        size_insert_new _ (bounded_new hnew)]
      omega

theorem register_own (hcaps : Caps s.regs) (h : s.regs.lookup reg.key = none)
    (hfull : countKeys (ofAor reg.aor) s.regs = maxBindingsPerAor) :
    ∃ k, OldestOf reg.aor s.regs k ∧ (register I s reg).2.regs.lookup k = none ∧
      ∀ k' : RegKey, k'.1 = reg.aor → k' ≠ k → k' ≠ reg.key →
        (register I s reg).2.regs.lookup k' = s.regs.lookup k' := by
  obtain ⟨k, hold, hgone, hrest⟩ := evict_own I reg.aor s.regs hfull
  have hne : k ≠ reg.key := by
    rintro rfl
    obtain ⟨-, r, hr, -⟩ := hold
    cases h.symm.trans hr
  rw [register_new h, bounded_eq_of_lt (size_evict_lt hfull hcaps.total)]
  refine ⟨k, hold, (AList.lookup_insert_ne hne).trans hgone, ?_⟩
  intro k' hk' hne' hnew
  exact (AList.lookup_insert_ne hnew).trans (hrest k' hk' hne')

/-- The others keep their bindings exactly when none of theirs is the oldest of all. -/
theorem register_others_iff (hcaps : Caps s.regs) :
    (size s.regs < maxBindingsTotal → ∀ k : RegKey, k.1 ≠ reg.aor →
        (register I s reg).2.regs.lookup k = s.regs.lookup k) ↔ ¬ ForeignOldest I s reg := by
  constructor
  · rintro hothers ⟨hnew, hfull, hroom, k, hk, hforeign⟩
    obtain ⟨r, hr, -⟩ := oldest_spec hk
    have hne : k ≠ reg.key := fun heq => hforeign (heq ▸ rfl)
    have hkept := hothers hroom k hforeign
    rw [register_new_ne hnew hne,
      bounded_eq_of_lt (size_evict_lt hfull hcaps.total),
      evict_of_full (aorFull_iff.mpr hfull.ge) hk, hr] at hkept
    have hgone : (evictOldestWhile I age (aorFull reg.aor) (s.regs.erase k)).lookup k = none :=
      (lookup_evict I age k _ _).elim (fun hsame => hsame.trans (AList.lookup_erase k s.regs)) id
    cases hgone.symm.trans hkept
  · intro hno hroom k hforeign
    have hne : k ≠ reg.key := fun heq => hforeign (heq ▸ rfl)
    cases hnew : s.regs.lookup reg.key with
    | some existing => exact register_present_ne hnew hne
    | none =>
        rw [register_new_ne hnew hne]
        rcases (hcaps.perAor reg.aor).lt_or_eq with hlt | hfull
        · rw [bounded_eq_self hlt hroom]
        · cases hk : oldest I age s.regs with
          | none =>
              have hle := countKeys_le_size (ofAor reg.aor) s.regs
              rw [hfull, oldest_eq_none hk] at hle
              exact absurd hle (by decide)
          | some k' =>
              have hown : k'.1 = reg.aor := by
                by_contra hother
                exact hno ⟨hnew, hfull, hroom, k', hk, hother⟩
              have hne' : k ≠ k' := fun heq => hforeign (heq ▸ hown)
              rw [bounded_eq_of_lt (size_evict_lt hfull hcaps.total), evict_first_own hfull hk hown,
                AList.lookup_erase_ne hne']

theorem register_within_caps_iff (hcaps : Caps s.regs) :
    RegisterContract I s reg ↔ ¬ ForeignOldest I s reg :=
  ⟨fun h => (register_others_iff hcaps).mp h.others,
    fun h => ⟨(register_others_iff hcaps).mpr h, register_own hcaps, register_caps hcaps reg⟩⟩

theorem caps_of_sweep (hcaps : Caps s.regs) (f : RegKey → Registration → Option Registration) :
    Caps (sweep f s.regs) :=
  ⟨fun aor => (countKeys_sweep_le _ _ _).trans (hcaps.perAor aor),
    (size_sweep_le _ _).trans hcaps.total⟩

theorem caps_of_erase (hcaps : Caps s.regs) (k : RegKey) : Caps (s.regs.erase k) :=
  ⟨fun aor => (countKeys_erase_le _ _ _).trans (hcaps.perAor aor),
    (size_erase_le _ _).trans hcaps.total⟩

theorem step_caps (hcaps : Caps s.regs) (e : Nat × Call) : Caps (step I s e).regs := by
  obtain ⟨now, call⟩ := e
  cases call with
  | register reg => exact register_caps hcaps reg
  | unregisterBinding aor key dialog =>
      rw [step, unregisterBinding]
      split
      next => exact hcaps
      next =>
        split
        next => exact hcaps
        next => exact caps_of_erase hcaps _
  | unregisterAll aor dialog => exact caps_of_sweep hcaps _
  | cleanupExpired => exact caps_of_sweep hcaps _

end

theorem caps_empty : Caps ∅ := ⟨fun _ => Nat.zero_le _, Nat.zero_le _⟩

/-- In every table that can be reached the bounds hold, and a registration keeps
what it promises exactly when it does not meet an older binding of another. -/
theorem register_contract_iff_no_foreign_oldest (I : Iteration RegKey Registration)
    (calls : List (Nat × Call)) :
    Caps (calls.foldl (step I) .new).regs ∧
      ∀ reg, RegisterContract I (calls.foldl (step I) .new) reg ↔
        ¬ ForeignOldest I (calls.foldl (step I) .new) reg := by
  have hcaps : Caps (calls.foldl (step I) .new).regs := by
    apply List.foldlRecOn (motive := fun s => Caps s.regs) calls (step I) caps_empty
    intro s hs e _
    exact step_caps hs e
  exact ⟨hcaps, fun reg => register_within_caps_iff hcaps⟩

/-- A registration at a time of its own, from a contact of its own. -/
def binding (aor : List Char) (n : Nat) : Registration :=
  .new (fun c => [c]) n aor (TextFields.showNat n) 3600 "a".toList 1 (NetAddr.ofOctets 192 0 2 1 5060)
    "UDP".toList

/-- Bob registers first, then Alice ten times. -/
def aliceFull : List (Nat × Call) :=
  (0, .register (binding ['b'] 0)) ::
    (List.range' 1 10).map fun n => (n, .register (binding ['a'] n))

/-- The eleventh binding of Alice costs Bob his only one. -/
theorem register_evicts_foreign_binding :
    ¬ RegisterContract .newestFirst (aliceFull.foldl (step .newestFirst) .new) (binding ['a'] 11) := by
  intro h
  have hkept := h.others (by decide) (binding ['b'] 0).key (by decide)
  revert hkept
  decide

end NixiSbc.RegistrarCaps
