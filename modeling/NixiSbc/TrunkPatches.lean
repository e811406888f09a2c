import NixiSbc.TrunkEdits

namespace NixiSbc.TrunkPatches

open RawSip TextFields Hydration TrunkApi TrunkEdits

/-- A value of a column. -/
inductive Column
  | null
  | bool (b : Bool)
  | int (n : Int64)
  | text (s : List Char)
  deriving DecidableEq

def optionalText : Option (List Char) → Column
  | none => .null
  | some s => .text s

def column (row : TrunkRow) : Field → Column
  | .name => .text row.name
  | .enabled => .bool row.enabled
  | .host => .text row.host
  | .port => .int row.port
  | .transport => .text row.transport
  | .authRequired => .bool row.authRequired
  | .username => optionalText row.username
  | .password => optionalText row.password
  | .realm => optionalText row.realm
  | .registerWithTrunk => .bool row.registerWithTrunk
  | .registrationInterval => .int row.registrationInterval
  | .prefixPatterns => .text row.prefixPatterns
  | .priority => .int row.priority
  | .weight => .int row.weight
  | .costPerMinute => .int row.costPerMinute
  | .numberFormat => .text row.numberFormat
  | .countryCode => optionalText row.countryCode
  | .nationalPrefix => optionalText row.nationalPrefix
  | .callerNumberFormat => optionalText row.callerNumberFormat
  | .callerNumberOverride => optionalText row.callerNumberOverride
  | .callerDisplayName => optionalText row.callerDisplayName
  | .allowedCodecs => .text row.allowedCodecs
  | .maxConcurrentCalls => .int row.maxConcurrentCalls
  | .tlsSni => optionalText row.tlsSni
  | .tlsCaCert => optionalText row.tlsCaCert
  | .tlsVerify => .bool row.tlsVerify
  | .tlsClientCert => optionalText row.tlsClientCert
  | .tlsClientKey => optionalText row.tlsClientKey

section

variable (J : StringArrays) (V : Uppering)

/-- A row that a create or an update has stored. -/
structure StoredTrunk (name : List Char) where
  row : TrunkRow
  body : TrunkBody
  stored : body.intoRow J V name = .ok row

/-- The column that a value of a field is stored in. -/
def columnOf : Field → Json → Column
  | .transport, .str s => .text (toUppercase V s)
  | _, .null => .null
  | _, .bool b => .bool b
  | _, .int n => .int (Int64.ofInt n)
  | _, .str s => .text s
  | _, .strs l => .text (J.print l)
  | _, .other => .null

/-- Whether a value has the type of a field. -/
def parses : Field → Json → Bool
  | .enabled, v | .authRequired, v | .registerWithTrunk, v | .tlsVerify, v => (asBool v).isSome
  | .port, v => (asUnsigned 16 v).isSome
  | .registrationInterval, v => (asUnsigned 64 v).isSome
  | .priority, v | .weight, v | .costPerMinute, v | .maxConcurrentCalls, v => (asUnsigned 32 v).isSome
  | .transport, v | .numberFormat, v => (asString v).isSome
  | .prefixPatterns, v | .allowedCodecs, v => (asStrings v).isSome
  | _, v => (asOptional v).isSome

/-- The error is about this entry of the patch. -/
def Explains (e : ApiError) (entry : List Char × Json) : Prop :=
  match fieldOf entry.1 with
  | none => e = .badRequest ("unknown field '".toList ++ entry.1 ++ ['\''])
  | some f =>
      parses f entry.2 = false ∧ e = .invalidTrunk ∨
        f = .password ∧ entry.2 = .str masked ∧
          e = .badRequest "password is masked (\"***\"); omit it to keep the current one".toList ∨
        f = .host ∧ (entry.2 = .null ∨ entry.2 = .str []) ∧ e = .badRequest "missing required field: host".toList ∨
        f = .transport ∧ (∃ s, entry.2 = .str s ∧ toUppercase V s ∉ transports) ∧
          e = .badRequest "transport must be UDP, TCP, TLS, WS or WSS".toList

/-- A patch is refused for an entry of its own, or changes the columns that it names, and
without entries it changes none. -/
def PatchFramed (name : List Char) (old : TrunkRow) (p : Patch) : Prop :=
  (match patchTrunk J V name (some p) (some old) with
    | .error e => ∃ entry ∈ p.entries, Explains V e entry
    | .ok row =>
        (∀ f : Field, f.key.toList ∉ p.entries.map (·.1) → column row f = column old f) ∧
          ∀ entry ∈ p.entries, entry.2 = .null → ∀ f, fieldOf entry.1 = some f → f ≠ .name → column row f = .null) ∧
    (p.entries = [] → patchTrunk J V name (some p) (some old) = .ok old)

/-- The patch sets the interval itself, or is refused for another entry. -/
def Spared (p : Patch) : Prop :=
  ∃ entry ∈ p.entries, fieldOf entry.1 = none ∨ fieldOf entry.1 = some .registrationInterval ∨
    ∃ f, fieldOf entry.1 = some f ∧ parses f entry.2 = false

end

variable {J : StringArrays} {V : Uppering} {name : List Char}

theorem optionalText_inj {a b : Option (List Char)} (h : optionalText a = optionalText b) : a = b := by
  cases a <;> cases b <;> simp_all [optionalText]

/-- A row is what stands in its columns. -/
theorem ext_column {a b : TrunkRow} (h : ∀ f, column a f = column b f) : a = b := by
  cases a
  cases b
  rw [TrunkRow.mk.injEq]
  exact ⟨Column.text.inj (h .name), Column.bool.inj (h .enabled), Column.text.inj (h .host),
    Column.int.inj (h .port), Column.text.inj (h .transport), Column.bool.inj (h .authRequired),
    optionalText_inj (h .username), optionalText_inj (h .password), optionalText_inj (h .realm),
    Column.bool.inj (h .registerWithTrunk), Column.int.inj (h .registrationInterval),
    Column.text.inj (h .prefixPatterns), Column.int.inj (h .priority), Column.int.inj (h .weight),
    Column.int.inj (h .costPerMinute), Column.text.inj (h .numberFormat), optionalText_inj (h .countryCode),
    optionalText_inj (h .nationalPrefix), optionalText_inj (h .callerNumberFormat),
    optionalText_inj (h .callerNumberOverride), optionalText_inj (h .callerDisplayName),
    Column.text.inj (h .allowedCodecs), Column.int.inj (h .maxConcurrentCalls), optionalText_inj (h .tlsSni),
    optionalText_inj (h .tlsCaCert), Column.bool.inj (h .tlsVerify), optionalText_inj (h .tlsClientCert),
    optionalText_inj (h .tlsClientKey)⟩

section Values

@[simp]
theorem columnOf_null (f : Field) : columnOf J V f .null = .null := by
  cases f <;> rfl

theorem columnOf_optional {f : Field} (hf : f ≠ .transport) (s : Option (List Char)) :
    columnOf J V f (optional s) = optionalText s := by
  cases s with
  | none => exact columnOf_null f
  | some s => cases f <;> first | rfl | exact absurd rfl hf

theorem columnOf_int (f : Field) (n : Int) : columnOf J V f (.int n) = .int (Int64.ofInt n) := by
  cases f <;> rfl

theorem intoRow_column {body : TrunkBody} {row : TrunkRow} (h : body.intoRow J V name = .ok row) {f : Field}
    (hf : f ≠ .name) : column row f = columnOf J V f (body.json f) := by
  obtain ⟨host, hhost, _, rfl⟩ := intoRow_cases h
  cases f with
  | name => exact absurd rfl hf
  | host =>
      rw [TrunkBody.json, hhost]
      rfl
  | username | password | realm | countryCode | nationalPrefix | callerNumberFormat | callerNumberOverride
  | callerDisplayName | tlsSni | tlsCaCert | tlsClientCert | tlsClientKey =>
      exact (columnOf_optional (by decide) _).symm
  | registrationInterval =>
      have hcolumn : body.registrationInterval.toInt64 = Int64.ofNat body.registrationInterval.toNat := by
        rw [← UInt64.toInt64_ofNat', UInt64.ofNat_toNat]
      exact congrArg Column.int hcolumn
  | _ => rfl

/-- A value that is read from a stored row is stored as it was. -/
theorem StoredTrunk.column_json (t : StoredTrunk J V name) {f : Field} (hf : f ≠ .name) :
    columnOf J V f (trunkBodyJson J t.row f) = column t.row f := by
  obtain ⟨host, _, htransport, hrow⟩ := intoRow_cases t.stored
  cases f with
  | name => exact absurd rfl hf
  | username | password | realm | countryCode | nationalPrefix | callerNumberFormat | callerNumberOverride
  | callerDisplayName | tlsSni | tlsCaCert | tlsClientCert | tlsClientKey => exact columnOf_optional (by decide) _
  | port | registrationInterval | priority | weight | costPerMinute | maxConcurrentCalls =>
      exact congrArg Column.int (Int64.ofInt_toInt _)
  | transport => exact congrArg Column.text (toUppercase_of_mem (intoRow_transport t.stored))
  | prefixPatterns | allowedCodecs =>
      rw [hrow]
      exact congrArg (Column.text ∘ J.print) (J.parse_print _)
  | _ => rfl

end Values

section Parsing

theorem parses_optional (s : Option (List Char)) : (asOptional (optional s)).isSome := by
  cases s <;> rfl

theorem asUnsigned_isSome {bits : Nat} {n : Int} (h : 0 ≤ n) (hlt : n < 2 ^ bits) :
    (asUnsigned bits (.int n)).isSome := by
  have hlt' : n.toNat < 2 ^ bits := by
    zify
    rwa [Int.toNat_of_nonneg h]
  rw [asUnsigned, if_pos ⟨h, hlt'⟩]
  rfl

/-- A column that was written from an unsigned number reads as one. -/
theorem asUnsigned_column {n bits : Nat} (h : n < 2 ^ bits) (hbits : bits ≤ 63) :
    (asUnsigned bits (.int (Int64.ofNat n).toInt)).isSome := by
  rw [toInt_ofNat_of_lt n bits h hbits]
  exact asUnsigned_isSome (Int.natCast_nonneg n) (by exact_mod_cast h)

/-- Every value that is read from a stored row has its type, except an interval that is negative. -/
theorem StoredTrunk.parses_json (t : StoredTrunk J V name) {f : Field}
    (hf : f = .registrationInterval → 0 ≤ t.row.registrationInterval.toInt) :
    parses f (trunkBodyJson J t.row f) = true := by
  obtain ⟨host, _, _, hrow⟩ := intoRow_cases t.stored
  cases f with
  | username | password | realm | countryCode | nationalPrefix | callerNumberFormat | callerNumberOverride
  | callerDisplayName | tlsSni | tlsCaCert | tlsClientCert | tlsClientKey => exact parses_optional _
  | registrationInterval =>
      have hlt := t.row.registrationInterval.toInt_lt
      exact asUnsigned_isSome (hf rfl) (by omega)
  | port =>
      rw [hrow]
      exact asUnsigned_column t.body.port.toNat_lt (by decide)
  | priority =>
      rw [hrow]
      exact asUnsigned_column t.body.priority.toNat_lt (by decide)
  | weight =>
      rw [hrow]
      exact asUnsigned_column t.body.weight.toNat_lt (by decide)
  | costPerMinute =>
      rw [hrow]
      exact asUnsigned_column t.body.costPerMinute.toNat_lt (by decide)
  | maxConcurrentCalls =>
      rw [hrow]
      exact asUnsigned_column t.body.maxConcurrentCalls.toNat_lt (by decide)
  | _ => rfl

/-- A body fails to parse only for a value that has not the type of its field. -/
theorem fromValue_isSome {base : Field → Json} (h : ∀ f, parses f (base f) = true) : (fromValue base).isSome := by
  have bind_isSome {α : Type} {o : Option α} {g : α → Option TrunkBody} (ho : o.isSome = true)
      (hg : ∀ a, (g a).isSome = true) : (o.bind g).isSome = true := by
    obtain ⟨a, rfl⟩ := Option.isSome_iff_exists.mp ho
    exact hg a
  rw [fromValue]
  refine bind_isSome (h .name) fun _ => ?_
  refine bind_isSome (h .enabled) fun _ => ?_
  refine bind_isSome (h .host) fun _ => ?_
  refine bind_isSome (h .port) fun _ => ?_
  refine bind_isSome (h .transport) fun _ => ?_
  refine bind_isSome (h .authRequired) fun _ => ?_
  refine bind_isSome (h .username) fun _ => ?_
  refine bind_isSome (h .password) fun _ => ?_
  refine bind_isSome (h .realm) fun _ => ?_
  refine bind_isSome (h .registerWithTrunk) fun _ => ?_
  refine bind_isSome (h .registrationInterval) fun _ => ?_
  refine bind_isSome (h .prefixPatterns) fun _ => ?_
  refine bind_isSome (h .priority) fun _ => ?_
  refine bind_isSome (h .weight) fun _ => ?_
  refine bind_isSome (h .costPerMinute) fun _ => ?_
  refine bind_isSome (h .numberFormat) fun _ => ?_
  refine bind_isSome (h .countryCode) fun _ => ?_
  refine bind_isSome (h .nationalPrefix) fun _ => ?_
  refine bind_isSome (h .callerNumberFormat) fun _ => ?_
  refine bind_isSome (h .callerNumberOverride) fun _ => ?_
  refine bind_isSome (h .callerDisplayName) fun _ => ?_
  refine bind_isSome (h .allowedCodecs) fun _ => ?_
  refine bind_isSome (h .maxConcurrentCalls) fun _ => ?_
  refine bind_isSome (h .tlsSni) fun _ => ?_
  refine bind_isSome (h .tlsCaCert) fun _ => ?_
  refine bind_isSome (h .tlsVerify) fun _ => ?_
  refine bind_isSome (h .tlsClientCert) fun _ => ?_
  exact bind_isSome (h .tlsClientKey) fun _ => rfl

theorem mergePatch_error {base : Field → Json} {entries : List (List Char × Json)} {e : ApiError}
    (h : mergePatch base entries = .error e) :
    ∃ entry ∈ entries, fieldOf entry.1 = none ∧
      e = .badRequest ("unknown field '".toList ++ entry.1 ++ ['\'']) := by
  induction entries generalizing base with
  | nil => cases h
  | cons entry entries ih =>
      rw [mergePatch] at h
      split at h
      next hnone => exact ⟨entry, List.mem_cons_self, hnone, (Except.error.inj h).symm⟩
      next =>
        obtain ⟨found, hfound, hspec⟩ := ih h
        exact ⟨found, List.mem_cons_of_mem _ hfound, hspec⟩

theorem mergePatch_ok {base : Field → Json} {entries : List (List Char × Json)}
    (h : ∀ entry ∈ entries, fieldOf entry.1 ≠ none) : ∃ merged, mergePatch base entries = .ok merged := by
  cases hmerged : mergePatch base entries with
  | ok merged => exact ⟨merged, rfl⟩
  | error e =>
      obtain ⟨entry, hentry, hnone, _⟩ := mergePatch_error hmerged
      exact absurd hnone (h entry hentry)

end Parsing

section Patching

variable {t : StoredTrunk J V name} {p : Patch} {row : TrunkRow} {e : ApiError} {merged : Field → Json}

/-- A merged value comes from the patch or, where that does not name the field, from the row. -/
theorem merged_cases {base : Field → Json} (h : mergePatch base p.entries = .ok merged) (f : Field) :
    (∃ entry ∈ p.entries, fieldOf entry.1 = some f ∧ entry.2 = merged f) ∨
      f.key.toList ∉ p.entries.map (·.1) ∧ merged f = base f := by
  obtain ⟨hset, hkept⟩ := mergePatch_spec h p.nodup
  by_cases hkey : f.key.toList ∈ p.entries.map (·.1)
  · obtain ⟨entry, hentry, hek⟩ := List.mem_map.mp hkey
    obtain ⟨g, hg, hv⟩ := hset entry hentry
    have hfield : fieldOf entry.1 = some f := by
      rw [hek, fieldOf_key]
    obtain rfl : f = g := Option.some.inj (hfield.symm.trans hg)
    exact .inl ⟨entry, hentry, hfield, hv.symm⟩
  · exact .inr ⟨hkey, hkept f hkey⟩

theorem merged_known {base : Field → Json} (h : mergePatch base p.entries = .ok merged) {entry : List Char × Json}
    (hentry : entry ∈ p.entries) : fieldOf entry.1 ≠ none := by
  obtain ⟨f, hf, _⟩ := (mergePatch_spec h p.nodup).1 entry hentry
  rw [hf]
  exact Option.some_ne_none f

theorem intoRow_error {body : TrunkBody} (h : body.intoRow J V name = .error e) :
    body.password = some masked ∧
        e = .badRequest "password is masked (\"***\"); omit it to keep the current one".toList ∨
      (body.host = none ∨ body.host = some []) ∧ e = .badRequest "missing required field: host".toList ∨
      toUppercase V body.transport ∉ transports ∧
        e = .badRequest "transport must be UDP, TCP, TLS, WS or WSS".toList := by
  rw [TrunkBody.intoRow] at h
  split at h
  next hmasked => exact .inl ⟨hmasked, (Except.error.inj h).symm⟩
  next =>
    split at h
    next hnone =>
      refine .inr (.inl ⟨?_, (Except.error.inj h).symm⟩)
      cases hhost : body.host with
      | none => exact .inl rfl
      | some host =>
          rw [hhost, Option.filter_eq_none_iff] at hnone
          simpa using hnone host rfl
    next =>
      split at h
      next htransport => exact .inr (.inr ⟨htransport, (Except.error.inj h).symm⟩)
      next => cases h

theorem StoredTrunk.password_ne (t : StoredTrunk J V name) : t.row.password ≠ some masked := by
  intro hmasked
  obtain ⟨host, _, _, hrow⟩ := intoRow_cases t.stored
  have hstored := t.stored
  rw [hrow] at hmasked
  have hbody : t.body.password = some masked := hmasked
  rw [TrunkBody.intoRow, if_pos hbody] at hstored
  cases hstored

theorem StoredTrunk.host_ne (t : StoredTrunk J V name) : t.row.host ≠ [] := by
  intro hempty
  obtain ⟨host, hhost, _, hrow⟩ := intoRow_cases t.stored
  have hstored := t.stored
  rw [hrow] at hempty
  obtain rfl : host = [] := hempty
  rw [TrunkBody.intoRow, hhost] at hstored
  split at hstored
  · cases hstored
  · cases hstored

/-- What is wrong with a merged body is wrong with an entry of the patch, as the row has passed before. -/
theorem intoRow_explained {body : TrunkBody} (hmerged : mergePatch (trunkBodyJson J t.row) p.entries = .ok merged)
    (hbody : fromValue merged = some body) (h : body.intoRow J V name = .error e) :
    ∃ entry ∈ p.entries, Explains V e entry := by
  have hjson := fromValue_json hbody
  rcases intoRow_error h with ⟨hpassword, rfl⟩ | ⟨hhost, rfl⟩ | ⟨htransport, rfl⟩
  · have hvalue := hjson .password
    rw [TrunkBody.json, hpassword] at hvalue
    obtain ⟨entry, hentry, hf, hv⟩ | ⟨_, hbase⟩ := merged_cases hmerged .password
    · refine ⟨entry, hentry, ?_⟩
      rw [Explains, hf]
      exact .inr (.inl ⟨rfl, hv.trans hvalue.symm, rfl⟩)
    · rw [hbase, trunkBodyJson] at hvalue
      cases hrow : t.row.password with
      | none =>
          rw [hrow] at hvalue
          cases hvalue
      | some s =>
          rw [hrow] at hvalue
          cases hvalue
          exact absurd hrow t.password_ne
  · have hvalue : merged .host = .null ∨ merged .host = .str [] := by
      rw [← hjson .host, TrunkBody.json]
      rcases hhost with hhost | hhost
      · exact .inl (congrArg optional hhost)
      · exact .inr (congrArg optional hhost)
    obtain ⟨entry, hentry, hf, hv⟩ | ⟨_, hbase⟩ := merged_cases hmerged .host
    · refine ⟨entry, hentry, ?_⟩
      rw [Explains, hf]
      exact .inr (.inr (.inl ⟨rfl, hv ▸ hvalue, rfl⟩))
    · rw [hbase, trunkBodyJson] at hvalue
      rcases hvalue with hvalue | hvalue
      · cases hvalue
      · exact absurd (Json.str.inj hvalue) t.host_ne
  · have hvalue : Json.str body.transport = merged .transport := hjson .transport
    obtain ⟨entry, hentry, hf, hv⟩ | ⟨_, hbase⟩ := merged_cases hmerged .transport
    · refine ⟨entry, hentry, ?_⟩
      rw [Explains, hf]
      exact .inr (.inr (.inr ⟨rfl, ⟨body.transport, hv.trans hvalue.symm, htransport⟩, rfl⟩))
    · have hrow := intoRow_transport t.stored
      rw [hbase] at hvalue
      rw [Json.str.inj hvalue, toUppercase_of_mem hrow] at htransport
      exact absurd hrow htransport

/-- A merged body that is none has an entry of the patch to blame, unless the row's own interval is. -/
theorem fromValue_explained (hmerged : mergePatch (trunkBodyJson J t.row) p.entries = .ok merged)
    (hbody : fromValue merged = none) (hspared : 0 ≤ t.row.registrationInterval.toInt ∨ Spared p) :
    ∃ entry ∈ p.entries, Explains V .invalidTrunk entry := by
  have explains {entry : List Char × Json} {f : Field} (hf : fieldOf entry.1 = some f)
      (hv : parses f entry.2 = false) : Explains V .invalidTrunk entry := by
    rw [Explains, hf]
    exact .inl ⟨hv, rfl⟩
  obtain ⟨f, hfalse⟩ : ∃ f, parses f (merged f) = false := by
    by_contra hall
    have hsome := fromValue_isSome fun f => Bool.not_eq_false _ ▸ not_exists.mp hall f
    rw [hbody] at hsome
    cases hsome
  obtain ⟨entry, hentry, hf, hv⟩ | ⟨hkey, hbase⟩ := merged_cases hmerged f
  · exact ⟨entry, hentry, explains hf (hv ▸ hfalse)⟩
  · have hinterval : f = .registrationInterval ∧ ¬0 ≤ t.row.registrationInterval.toInt := by
      rw [← Classical.not_imp]
      intro h
      rw [hbase, t.parses_json h] at hfalse
      cases hfalse
    obtain ⟨rfl, hnegative⟩ := hinterval
    obtain ⟨entry, hentry, hunknown | hnamed | ⟨g, hg, hv⟩⟩ := hspared.resolve_left hnegative
    · exact absurd hunknown (merged_known hmerged hentry)
    · rw [key_of_fieldOf hnamed] at hkey
      exact absurd (List.mem_map_of_mem hentry) hkey
    · exact ⟨entry, hentry, explains hg hv⟩

theorem patch_explained (hspared : 0 ≤ t.row.registrationInterval.toInt ∨ Spared p)
    (h : patchTrunk J V name (some p) (some t.row) = .error e) : ∃ entry ∈ p.entries, Explains V e entry := by
  rw [patchTrunk] at h
  split at h
  next hmerged =>
    obtain rfl := Except.error.inj h
    obtain ⟨entry, hentry, hunknown, he⟩ := mergePatch_error hmerged
    refine ⟨entry, hentry, ?_⟩
    rw [Explains, hunknown]
    exact he
  next merged hmerged =>
    split at h
    next hbody =>
      obtain rfl := Except.error.inj h
      exact fromValue_explained hmerged hbody hspared
    next body hbody => exact intoRow_explained hmerged hbody h

/-- A patch that is stored leaves the columns that it does not name. -/
theorem patch_column (h : patchTrunk J V name (some p) (some t.row) = .ok row) {f : Field}
    (hf : f.key.toList ∉ p.entries.map (·.1)) : column row f = column t.row f := by
  obtain ⟨_, _, merged, body, hold, hp, hmerged, hbody, hrow⟩ := patchTrunk_cases h
  obtain rfl := Option.some.inj hold
  obtain rfl := Option.some.inj hp
  by_cases hname : f = .name
  · subst hname
    exact congrArg Column.text ((intoRow_name hrow).trans (intoRow_name t.stored).symm)
  · rw [intoRow_column hrow hname, fromValue_json hbody, (mergePatch_spec hmerged p.nodup).2 f hf,
      t.column_json hname]

theorem patch_clears (h : patchTrunk J V name (some p) (some t.row) = .ok row) {entry : List Char × Json}
    (hentry : entry ∈ p.entries) (hnull : entry.2 = .null) {f : Field} (hf : fieldOf entry.1 = some f)
    (hname : f ≠ .name) : column row f = .null := by
  obtain ⟨_, _, merged, body, hold, hp, hmerged, hbody, hrow⟩ := patchTrunk_cases h
  obtain rfl := Option.some.inj hold
  obtain rfl := Option.some.inj hp
  obtain ⟨g, hg, hv⟩ := (mergePatch_spec hmerged p.nodup).1 entry hentry
  obtain rfl : f = g := Option.some.inj (hf.symm.trans hg)
  rw [intoRow_column hrow hname, fromValue_json hbody, hv, hnull, columnOf_null]

/-- A negative interval that the patch leaves has the patch refused, whatever it sets. -/
theorem patch_refused (hnegative : ¬0 ≤ t.row.registrationInterval.toInt) (hspared : ¬Spared p) :
    patchTrunk J V name (some p) (some t.row) = .error .invalidTrunk := by
  have hknown : ∀ entry ∈ p.entries, fieldOf entry.1 ≠ none := fun entry hentry hnone =>
    hspared ⟨entry, hentry, .inl hnone⟩
  obtain ⟨merged, hmerged⟩ : ∃ merged, mergePatch (trunkBodyJson J t.row) p.entries = .ok merged := mergePatch_ok hknown
  have hbody : fromValue merged = none := by
    by_contra hsome
    obtain ⟨body, hbody⟩ := Option.ne_none_iff_exists'.mp hsome
    have hvalue : Json.int body.registrationInterval.toNat = merged .registrationInterval :=
      fromValue_json hbody .registrationInterval
    obtain ⟨entry, hentry, hf, _⟩ | ⟨_, hbase⟩ := merged_cases hmerged .registrationInterval
    · exact hspared ⟨entry, hentry, .inr (.inl hf)⟩
    · rw [hbase] at hvalue
      exact hnegative (Json.int.inj hvalue ▸ Int.natCast_nonneg _)
  simp only [patchTrunk, hmerged, hbody]

end Patching

/-- A patch is framed exactly where the interval reads back as a body has it, or the
patch is not about it. -/
theorem patch_framed_iff (t : StoredTrunk J V name) (p : Patch) :
    PatchFramed J V name t.row p ↔ 0 ≤ t.row.registrationInterval.toInt ∨ Spared p := by
  constructor
  · intro hframed
    by_contra hbad
    rw [not_or] at hbad
    have hframed := hframed.1
    rw [patch_refused hbad.1 hbad.2] at hframed
    obtain ⟨entry, hentry, hexplains⟩ := hframed
    apply hbad.2
    refine ⟨entry, hentry, ?_⟩
    cases hf : fieldOf entry.1 with
    | none => exact .inl rfl
    | some f =>
        rw [Explains, hf] at hexplains
        rcases hexplains with ⟨hv, _⟩ | ⟨_, _, h⟩ | ⟨_, _, h⟩ | ⟨_, _, h⟩
        · exact .inr (.inr ⟨f, rfl, hv⟩)
        · cases h
        · cases h
        · cases h
  · intro hspared
    constructor
    · cases h : patchTrunk J V name (some p) (some t.row) with
      | error e => exact patch_explained hspared h
      | ok row => exact ⟨fun f hf => patch_column h hf, fun entry hentry hnull f hf => patch_clears h hentry hnull hf⟩
    · intro hempty
      have hnone : ∀ entry, entry ∉ p.entries := fun entry => hempty ▸ List.not_mem_nil
      cases h : patchTrunk J V name (some p) (some t.row) with
      | error e =>
          obtain ⟨entry, hentry, _⟩ := patch_explained hspared h
          exact absurd hentry (hnone entry)
      | ok row =>
          refine congrArg Except.ok (ext_column fun f => patch_column h ?_)
          rw [hempty]
          exact List.not_mem_nil

def longBody : TrunkBody := { sampleBody "gw".toList with registrationInterval := 0x8000000000000000 }

def longInterval : StoredTrunk plainArrays (fun c => [c]) "gw".toList where
  row := longBody.row plainArrays "gw".toList "sip.example.com".toList "UDP".toList
  body := longBody
  stored := rfl

theorem nodup_noFields : (([] : List (List Char × Json)).map (·.1)).Nodup := List.nodup_nil

def noFields : Patch := ⟨[], nodup_noFields⟩

/-- An interval that its column cannot hold has every patch refused, the empty one too. -/
theorem patch_unframed : ¬PatchFramed plainArrays (fun c => [c]) "gw".toList longInterval.row noFields := by
  intro hframed
  have hnegative : ¬0 ≤ longInterval.row.registrationInterval.toInt := by decide
  have hspared : ¬Spared noFields := by
    rintro ⟨entry, hentry, _⟩
    exact List.not_mem_nil hentry
  have hempty := hframed.2 rfl
  rw [patch_refused hnegative hspared] at hempty
  cases hempty

end NixiSbc.TrunkPatches
