import NixiSbc.HydrationParts

namespace NixiSbc.HydratedTrunks

open Hydration HydrationParts

variable {E : Env} {p : Pass} {l : TrunkTable} {row : TrunkRow} {t : TrunkConfig}

def ofName (name : List Char) (l : TrunkTable) : TrunkTable := l.filter (·.name = name)

/-- A trunk without its id and its resolved address. -/
def settings (t : TrunkConfig) : TrunkConfig := { t with id := 0, resolvedAddr := none }

/-- What is written for a row, beside the trunk that was found. -/
def written (E : Env) (p : Pass) (row : TrunkRow) : Option TrunkConfig → TrunkConfig
  | some existing =>
      merged existing
        (if existing.host ≠ (rowConfig E p row).host ∨ existing.port ≠ (rowConfig E p row).port then
          resolveDestination p (rowConfig E p row)
        else rowConfig E p row)
  | none => resolveDestination p (rowConfig E p row)

@[simp] theorem settings_written (found : Option TrunkConfig) :
    settings (written E p row found) = settings (rowConfig E p row) := by
  cases found with
  | none => rfl
  | some existing =>
      simp only [written]
      split <;> rfl

@[simp] theorem name_written (found : Option TrunkConfig) : (written E p row found).name = row.name := by
  cases found with
  | none => rfl
  | some existing =>
      simp only [written]
      split <;> rfl

/-- A trunk with the settings of the row is written as it was. -/
theorem written_eq_iff : written E p row (some t) = t ↔ settings t = settings (rowConfig E p row) := by
  constructor
  · intro h
    rw [← settings_written (some t), h]
  · intro h
    have hhost : t.host = (rowConfig E p row).host := congrArg (·.host) h
    have hport : t.port = (rowConfig E p row).port := congrArg (·.port) h
    have hrest : t = { settings t with id := t.id, resolvedAddr := t.resolvedAddr } := rfl
    simp only [written, hhost, hport, ne_eq, not_true_eq_false, or_self, if_false, merged, and_self, if_true]
    conv_rhs => rw [hrest, h]
    rfl

theorem findByName_eq (l : TrunkTable) (name : List Char) : findByName l name = (ofName name l).head? := by
  rw [ofName, List.head?_filter]
  rfl

theorem ofName_writeFirst_self {config : TrunkConfig} (hfound : (ofName row.name l).head? = some t)
    (hname : config.name = row.name) :
    ofName row.name (writeFirst row.name config l) = config :: (ofName row.name l).tail := by
  induction l with
  | nil => simp [ofName] at hfound
  | cons t' l ih =>
      by_cases h : t'.name = row.name
      · simp [writeFirst, ofName, h, hname]
      · simp only [ofName, h, decide_false, Bool.false_eq_true, not_false_eq_true, List.filter_cons_of_neg] at hfound ⊢
        simpa [writeFirst, h, ofName] using ih hfound

theorem ofName_writeFirst_ne {config : TrunkConfig} {name : List Char} (hname : config.name = row.name)
    (hne : name ≠ row.name) : ofName name (writeFirst row.name config l) = ofName name l := by
  induction l with
  | nil => rfl
  | cons t' l ih =>
      simp only [ofName] at ih
      by_cases h : t'.name = row.name
      · simp [writeFirst, ofName, h, hname, hne.symm]
      · simp [writeFirst, ofName, h, List.filter_cons, ih]

theorem applyRow_eq (E : Env) (p : Pass) (l : TrunkTable) (row : TrunkRow) :
    applyRow E p l row =
      match findByName l row.name with
      | some existing => writeFirst row.name (written E p row (some existing)) l
      | none => l ++ [written E p row none] := by
  cases h : findByName l row.name <;> simp [applyRow, updateTrunkByName, h, written, addTrunk]

theorem ofName_applyRow_self :
    ofName row.name (applyRow E p l row) =
      written E p row (ofName row.name l).head? :: (ofName row.name l).tail := by
  rw [applyRow_eq, findByName_eq]
  cases h : (ofName row.name l).head? with
  | some existing => exact ofName_writeFirst_self h (name_written _)
  | none =>
      have hempty : ofName row.name l = [] := List.head?_eq_none_iff.mp h
      simp only [ofName] at hempty
      simp [ofName, List.filter_append, hempty]

theorem ofName_applyRow_ne {name : List Char} (hne : name ≠ row.name) :
    ofName name (applyRow E p l row) = ofName name l := by
  rw [applyRow_eq]
  cases findByName l row.name with
  | some existing => exact ofName_writeFirst_ne (name_written _) hne
  | none => simp [ofName, List.filter_append, hne.symm]

theorem ofName_foldl_absent {rows : List TrunkRow} {name : List Char} (h : name ∉ rows.map (·.name)) :
    ofName name (rows.foldl (applyRow E p) l) = ofName name l := by
  induction rows generalizing l with
  | nil => rfl
  | cons row' rows ih =>
      simp only [List.map_cons, List.mem_cons, not_or] at h
      rw [List.foldl_cons, ih h.2, ofName_applyRow_ne h.1]

/-- Each row writes the first trunk of its name, and no other row does. -/
theorem ofName_foldl {rows : List TrunkRow} (hnodup : (rows.map (·.name)).Nodup) (hrow : row ∈ rows) :
    ofName row.name (rows.foldl (applyRow E p) l) =
      written E p row (ofName row.name l).head? :: (ofName row.name l).tail := by
  induction rows generalizing l with
  | nil => cases hrow
  | cons row' rows ih =>
      obtain ⟨hnew, hnodup⟩ := List.nodup_cons.mp hnodup
      rcases List.mem_cons.mp hrow with rfl | hin
      · rw [List.foldl_cons, ofName_foldl_absent hnew, ofName_applyRow_self]
      · have hne : row.name ≠ row'.name := by
          intro he
          exact hnew (List.mem_map.mpr ⟨row, hin, he⟩)
        rw [List.foldl_cons, ih hnodup hin, ofName_applyRow_ne hne]

theorem mem_disableAbsent {names : List (List Char)} (h : t ∈ disableAbsent names l) (henabled : t.enabled = true) :
    t ∈ l ∧ t.name ∈ names := by
  obtain ⟨t', ht', rfl⟩ := List.mem_map.mp h
  by_cases habsent : t'.name ∉ names ∧ t'.enabled = true
  · simp [habsent] at henabled
  · rw [if_neg habsent] at henabled ⊢
    exact ⟨ht', by_contra fun hname => habsent ⟨hname, henabled⟩⟩

theorem mem_disableAbsent_of_mem {names : List (List Char)} (h : t ∈ l) (hname : t.name ∈ names) :
    t ∈ disableAbsent names l := by
  refine List.mem_map.mpr ⟨t, h, ?_⟩
  rw [if_neg fun habsent => habsent.1 hname]

theorem ofName_disableAbsent {names : List (List Char)} {name : List Char} (h : name ∈ names) :
    ofName name (disableAbsent names l) = ofName name l := by
  induction l with
  | nil => rfl
  | cons t' l ih =>
      simp only [ofName, disableAbsent, List.map_cons] at ih ⊢
      by_cases hname : t'.name = name
      · rw [List.filter_cons_of_pos (by split <;> simpa using hname), List.filter_cons_of_pos (by simpa using hname), ih,
          if_neg fun habsent => habsent.1 (hname ▸ h)]
      · rw [List.filter_cons_of_neg (by split <;> simpa using hname), List.filter_cons_of_neg (by simpa using hname), ih]

/-- Of a stored name the first trunk is written, and the others stay as they were. -/
theorem ofName_after (hrow : row ∈ p.store.trunks) :
    ofName row.name (after E p .trunks l) =
      written E p row (ofName row.name l).head? :: (ofName row.name l).tail := by
  rw [after, ofName_disableAbsent (List.mem_map_of_mem hrow), ofName_foldl p.store.trunks_nodup hrow]

/-- The enabled trunks after a hydration. -/
theorem mem_after_iff (henabled : t.enabled = true) :
    t ∈ after E p .trunks l ↔ ∃ row ∈ p.store.trunks, t.name = row.name ∧
      (t = written E p row (ofName row.name l).head? ∨ t ∈ (ofName row.name l).tail) := by
  have hname (row : TrunkRow) (hrow : row ∈ p.store.trunks) :
      (t ∈ after E p .trunks l ∧ t.name = row.name) ↔ t.name = row.name ∧
        (t = written E p row (ofName row.name l).head? ∨ t ∈ (ofName row.name l).tail) := by
    have hmem := congrArg (t ∈ ·) (ofName_after (E := E) (l := l) hrow)
    simp only [ofName, List.mem_filter, decide_eq_true_eq, List.mem_cons, eq_iff_iff] at hmem
    constructor
    · intro h
      exact ⟨h.2, by simpa [ofName] using hmem.mp h⟩
    · intro h
      exact hmem.mpr (by simpa [ofName] using h.2)
  constructor
  · intro h
    obtain ⟨row, hrow, hrowname⟩ := List.mem_map.mp (mem_disableAbsent h henabled).2
    exact ⟨row, hrow, (hname row hrow).mp ⟨h, hrowname.symm⟩⟩
  · rintro ⟨row, hrow, h⟩
    exact ((hname row hrow).mpr h).1

end NixiSbc.HydratedTrunks
