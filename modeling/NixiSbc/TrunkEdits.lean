import NixiSbc.ReadModifyWrite
import NixiSbc.TrunkApi

namespace NixiSbc.TrunkEdits

open RawSip TextFields Hydration TrunkApi ReadModifyWrite StateRuns

/-- The requests that read the row of a trunk before they write it. -/
inductive Request (name : List Char)
  | patch (body : Option Patch)
  | create (body : TrunkBody) (named : body.name = some name)

section

variable (J : StringArrays) (V : Uppering) {name : List Char}

/-- What a request upserts, from the row that it read. -/
def Request.upsert : Request name → Option TrunkRow → Except ApiError (Option TrunkRow)
  | .patch body, existing => (patchTrunk J V name body existing).map some
  | .create body _, existing => (createTrunk J V body existing).map some

def Carries (row : TrunkRow) (p : Patch) : Prop :=
  ∀ e ∈ p.entries, ∃ f, fieldOf e.1 = some f ∧ trunkBodyJson J row f = stored V f e.2

/-- The name in a patch, which is not read, is the one in the path, and its interval fits the column. -/
def Plain (name : List Char) (p : Patch) : Prop :=
  ∀ e ∈ p.entries, (fieldOf e.1 = some .name → e.2 = .str name) ∧
    (fieldOf e.1 = some .registrationInterval → ∀ n, e.2 = .int n → n < 2 ^ 63)

def Apart (p q : Patch) : Prop := ∀ k ∈ p.entries.map (·.1), k ∉ q.entries.map (·.1)

end

variable {J : StringArrays} {V : Uppering} {name : List Char}

section Patching

variable {p : Patch} {old row : TrunkRow} {base : Field → Json} {body : TrunkBody}

theorem merged_fits (hplain : Plain name p) (hbase : mergePatch (trunkBodyJson J old) p.entries = .ok base)
    (hbody : fromValue base = some body) : body.registrationInterval.toNat < 2 ^ 63 := by
  obtain ⟨hset, hkept⟩ := mergePatch_spec hbase p.nodup
  have hinterval := fromValue_json hbody .registrationInterval
  by_cases hkey : Field.registrationInterval.key.toList ∈ p.entries.map (·.1)
  · obtain ⟨e, he, hek⟩ := List.mem_map.mp hkey
    have hfield : fieldOf e.1 = some .registrationInterval := by
      rw [hek, fieldOf_key]
    obtain ⟨f, hf, hv⟩ := hset e he
    obtain rfl : Field.registrationInterval = f := Option.some.inj (hfield.symm.trans hf)
    have hlt := (hplain e he).2 hfield _ (hv.symm.trans hinterval.symm)
    exact_mod_cast hlt
  · have heq : Json.int body.registrationInterval.toNat = .int old.registrationInterval.toInt :=
      hinterval.trans (hkept _ hkey)
    have hlt := old.registrationInterval.toInt_lt
    injection heq with heq
    omega

/-- A patch that is stored is carried by the row. -/
theorem carries_of_patch (hplain : Plain name p) (h : patchTrunk J V name (some p) (some old) = .ok row) :
    Carries J V row p := by
  obtain ⟨_, _, base, body, hold, hp, hbase, hbody, hrow⟩ := patchTrunk_cases h
  obtain rfl := Option.some.inj hold
  obtain rfl := Option.some.inj hp
  intro e he
  obtain ⟨f, hf, hv⟩ := (mergePatch_spec hbase p.nodup).1 e he
  refine ⟨f, hf, ?_⟩
  by_cases hname : f = .name
  · subst hname
    rw [(hplain e he).1 hf, ← intoRow_name hrow]
    rfl
  · rw [intoRow_json hrow (merged_fits hplain hbase hbody) hname, fromValue_json hbody, hv]

/-- A patch leaves the fields that it does not set, once the transport is spelled as it is stored. -/
theorem patch_keeps (hplain : Plain name p) (h : patchTrunk J V name (some p) (some old) = .ok row)
    (htransport : old.transport ∈ transports) {f : Field} (hf : f.key.toList ∉ p.entries.map (·.1))
    (hname : f ≠ .name) : trunkBodyJson J row f = trunkBodyJson J old f := by
  obtain ⟨_, _, base, body, hold, hp, hbase, hbody, hrow⟩ := patchTrunk_cases h
  obtain rfl := Option.some.inj hold
  obtain rfl := Option.some.inj hp
  rw [intoRow_json hrow (merged_fits hplain hbase hbody) hname, fromValue_json hbody,
    (mergePatch_spec hbase p.nodup).2 f hf]
  cases f with
  | transport => exact congrArg Json.str (toUppercase_of_mem htransport)
  | _ => rfl

/-- A row keeps a patch through every other one that sets other fields. -/
theorem Carries.patch {q : Patch} (hq : Carries J V old q) (hqplain : Plain name q) (hplain : Plain name p)
    (hapart : Apart q p) (htransport : old.transport ∈ transports)
    (h : patchTrunk J V name (some p) (some old) = .ok row) : Carries J V row q := by
  intro e he
  obtain ⟨f, hf, hv⟩ := hq e he
  refine ⟨f, hf, ?_⟩
  by_cases hname : f = .name
  · subst hname
    obtain ⟨_, _, _, _, _, _, _, _, hrow⟩ := patchTrunk_cases h
    rw [(hqplain e he).1 hf, ← intoRow_name hrow]
    rfl
  · have hkey : f.key.toList ∉ p.entries.map (·.1) := by
      rw [key_of_fieldOf hf]
      exact hapart _ (List.mem_map_of_mem he)
    rw [patch_keeps hplain h htransport hkey hname, hv]

end Patching

section Orders

variable {ι : Type} {request : ι → Request name} {order : List ι} {cell final : Option TrunkRow}

theorem upsert_cases {r : Request name} {seen written : Option TrunkRow} (h : r.upsert J V seen = .ok written) :
    ∃ row, written = some row ∧ row.transport ∈ transports ∧
      ((∃ old p, r = .patch (some p) ∧ seen = some old ∧ patchTrunk J V name (some p) (some old) = .ok row) ∨
        ∃ body named, r = .create body named ∧ seen = none) := by
  cases r with
  | patch b =>
      rw [Request.upsert] at h
      cases hrow : patchTrunk J V name b seen with
      | error e =>
          rw [hrow] at h
          cases h
      | ok row =>
          rw [hrow] at h
          cases h
          obtain ⟨old, p, _, _, rfl, rfl, _, _, hinto⟩ := patchTrunk_cases hrow
          exact ⟨row, rfl, intoRow_transport hinto, .inl ⟨old, p, rfl, rfl, hrow⟩⟩
  | create b named =>
      rw [Request.upsert] at h
      cases hrow : createTrunk J V b seen with
      | error e =>
          rw [hrow] at h
          cases h
      | ok row =>
          rw [hrow] at h
          cases h
          obtain ⟨hnone, name, hinto⟩ := createTrunk_cases hrow
          exact ⟨row, rfl, intoRow_transport hinto, .inr ⟨b, named, rfl, hnone⟩⟩

theorem sequential_concat_cases {f : ι → Option TrunkRow → Except ApiError (Option TrunkRow)} {i : ι}
    (h : sequential f (order ++ [i]) cell = .ok final) :
    ∃ mid, sequential f order cell = .ok mid ∧ f i mid = .ok final := by
  rw [sequential_concat] at h
  cases hmid : sequential f order cell with
  | error e =>
      rw [hmid] at h
      cases h
  | ok mid => exact ⟨mid, rfl, by rwa [hmid] at h⟩

/-- After a request the trunk is there, with its transport as it is stored. -/
theorem stored_transport (h : sequential (fun i => (request i).upsert J V) order cell = .ok final)
    (hne : order ≠ []) : ∃ row, final = some row ∧ row.transport ∈ transports := by
  induction order using List.reverseRecOn with
  | nil => exact absurd rfl hne
  | append_singleton order i _ =>
      obtain ⟨mid, _, hi⟩ := sequential_concat_cases h
      obtain ⟨row, rfl, htransport, _⟩ := upsert_cases hi
      exact ⟨row, rfl, htransport⟩

theorem create_first {i : ι} (h : sequential (fun i => (request i).upsert J V) (order ++ [i]) cell = .ok final)
    {body : TrunkBody} {named : body.name = some name} (hi : request i = .create body named) : order = [] := by
  by_contra hne
  obtain ⟨mid, hmid, hlast⟩ := sequential_concat_cases h
  obtain ⟨row, rfl, _⟩ := stored_transport hmid hne
  rw [hi] at hlast
  obtain ⟨_, _, _, ⟨_, _, hcontra, _⟩ | ⟨_, _, _, hcontra⟩⟩ := upsert_cases hlast
  · cases hcontra
  · cases hcontra

theorem one_create (h : sequential (fun i => (request i).upsert J V) order cell = .ok final)
    {i j : ι} (hi : i ∈ order) (hj : j ∈ order) {a b : TrunkBody} {na : a.name = some name}
    {nb : b.name = some name} (ha : request i = .create a na) (hb : request j = .create b nb) : i = j := by
  induction order using List.reverseRecOn generalizing final with
  | nil => exact absurd hi List.not_mem_nil
  | append_singleton order k ih =>
      obtain ⟨mid, hmid, _⟩ := sequential_concat_cases h
      rw [List.mem_append, List.mem_singleton] at hi hj
      rcases hi with hi | rfl
      · rcases hj with hj | rfl
        · exact ih hmid hi hj
        · rw [create_first h hb] at hi
          exact absurd hi List.not_mem_nil
      · rcases hj with hj | rfl
        · rw [create_first h ha] at hj
          exact absurd hj List.not_mem_nil
        · rfl

/-- One after the other, requests that set other fields leave each other's. -/
theorem sequential_carries (h : sequential (fun i => (request i).upsert J V) order cell = .ok final)
    (hnodup : order.Nodup) (hplain : ∀ i p, request i = .patch (some p) → Plain name p)
    (hapart : ∀ i j p q, i ≠ j → request i = .patch (some p) → request j = .patch (some q) → Apart p q)
    {i : ι} {p : Patch} (hi : i ∈ order) (hp : request i = .patch (some p)) :
    ∃ row, final = some row ∧ Carries J V row p := by
  induction order using List.reverseRecOn generalizing final with
  | nil => exact absurd hi List.not_mem_nil
  | append_singleton order k ih =>
      obtain ⟨mid, hmid, hlast⟩ := sequential_concat_cases h
      obtain ⟨row, rfl, _, hcases⟩ := upsert_cases hlast
      refine ⟨row, rfl, ?_⟩
      rw [List.mem_append, List.mem_singleton] at hi
      rcases hi with hi | rfl
      · obtain ⟨old, rfl, hcarries⟩ := ih hmid (List.nodup_append.mp hnodup).1 hi
        obtain ⟨_, hold, htransport⟩ := stored_transport hmid (List.ne_nil_of_mem hi)
        obtain rfl := Option.some.inj hold
        rcases hcases with ⟨_, q, hq, hseen, hrow⟩ | ⟨_, _, _, hseen⟩
        · obtain rfl := Option.some.inj hseen
          have hik : i ≠ k := by
            rintro rfl
            exact (List.nodup_append.mp hnodup).2.2 i hi i (List.mem_singleton_self i) rfl
          exact hcarries.patch (hplain i p hp) (hplain k q hq) (hapart i k p q hik hp hq) htransport hrow
        · cases hseen
      · rcases hcases with ⟨old, q, hq, _, hrow⟩ | ⟨_, _, hcreate, _⟩
        · rw [hp] at hq
          cases hq
          exact carries_of_patch (hplain i p hp) hrow
        · rw [hp] at hcreate
          cases hcreate

end Orders

section Arrays

/-- What has been read of an array: the strings before, the one that is open, and
whether a backslash stands before the next character. -/
abbrev Reading := List (List Char) × Option (List Char) × Bool

def readChar : Reading → Char → Reading
  | (l, none, _), c => if c = '"' then (l, some [], false) else (l, none, false)
  | (l, some s, true), c => (l, some (s ++ [c]), false)
  | (l, some s, false), c =>
      if c = '"' then (l ++ [s], none, false)
      else if c = '\\' then (l, some s, true)
      else (l, some (s ++ [c]), false)

def quote (s : List Char) : List Char :=
  '"' :: s.flatMap (fun c => if c = '"' ∨ c = '\\' then ['\\', c] else [c]) ++ ['"']

def printItems : List (List Char) → List Char
  | [] => []
  | [s] => quote s
  | s :: l => quote s ++ ',' :: printItems l

theorem readChar_escaped (l : List (List Char)) (open_ s : List Char) :
    (s.flatMap fun c => if c = '"' ∨ c = '\\' then ['\\', c] else [c]).foldl readChar (l, some open_, false) =
      (l, some (open_ ++ s), false) := by
  induction s generalizing open_ with
  | nil => simp
  | cons c s ih =>
      rw [List.flatMap_cons, List.foldl_append]
      have hc : (if c = '"' ∨ c = '\\' then ['\\', c] else [c]).foldl readChar (l, some open_, false) =
          (l, some (open_ ++ [c]), false) := by
        split
        next => rfl
        next h =>
          rw [not_or] at h
          simp [readChar, h]
      rw [hc, ih, List.append_assoc]
      rfl

theorem readChar_quote (l : List (List Char)) (s rest : List Char) :
    (quote s ++ rest).foldl readChar (l, none, false) = rest.foldl readChar (l ++ [s], none, false) := by
  rw [quote, List.cons_append, List.cons_append, List.foldl_cons, List.append_assoc, List.foldl_append]
  change (['"'] ++ rest).foldl readChar (List.foldl readChar (l, some [], false) _) = _
  rw [readChar_escaped]
  rfl

theorem readChar_items (l done : List (List Char)) :
    (printItems l ++ [']']).foldl readChar (done, none, false) = (done ++ l, none, false) := by
  induction l generalizing done with
  | nil => simp [printItems, readChar]
  | cons s l ih =>
      cases l with
      | nil =>
          rw [printItems, readChar_quote]
          rfl
      | cons t l =>
          rw [printItems, List.append_assoc, readChar_quote, List.cons_append, List.foldl_cons]
          change (printItems (t :: l) ++ [']']).foldl readChar (done ++ [s], none, false) = _
          rw [ih, List.append_assoc]
          rfl
          simp

/-- Arrays of strings without control characters. -/
def plainArrays : StringArrays where
  parse text := (text.foldl readChar ([], none, false)).1
  print l := '[' :: (printItems l ++ [']'])
  parse_print l := by
    rw [List.foldl_cons]
    exact congrArg (·.1) (readChar_items l [])

example : plainArrays.print ["PCMU".toList, "PCMA".toList] = "[\"PCMU\",\"PCMA\"]".toList := rfl

end Arrays

section Runs

variable {ι : Type} [DecidableEq ι]

/-- The row and the requests after a run. -/
def served (J : StringArrays) (V : Uppering) (request : ι → Request name) (cell : Option TrunkRow)
    (actions : List (Action ι)) : Cfg ι (Option TrunkRow) ApiError :=
  actions.foldl (step fun i => (request i).upsert J V) (start cell)

/-- Every upsert finds the row that its request read. -/
def Timely (J : StringArrays) (V : Uppering) (request : ι → Request name) (cell : Option TrunkRow)
    (actions : List (Action ι)) : Prop :=
  Throughout (step fun i => (request i).upsert J V) (Undisturbed fun i => (request i).upsert J V) (start cell) actions

/-- In every timely run no successful patch is lost, and of two creations at most one succeeds. -/
theorem edits_kept (J : StringArrays) (V : Uppering) (name : List Char) (request : ι → Request name)
    (cell : Option TrunkRow) (actions : List (Action ι)) (hrun : Timely J V request cell actions)
    (hplain : ∀ i p, request i = .patch (some p) → Plain name p) :
    ((∀ i j p q, i ≠ j → request i = .patch (some p) → request j = .patch (some q) → Apart p q) →
      ∀ i p, request i = .patch (some p) → Done (served J V request cell actions) i →
        ∃ row, (served J V request cell actions).cell = some row ∧ Carries J V row p) ∧
      ∀ i j a b na nb, i ≠ j → request i = .create a na → request j = .create b nb →
        ¬(Done (served J V request cell actions) i ∧ Done (served J V request cell actions) j) := by
  obtain ⟨order, hnodup, hdone, hsequential⟩ := serial_run hrun
  constructor
  · intro hapart i p hp hi
    exact sequential_carries hsequential hnodup hplain hapart ((hdone i).mpr hi) hp
  · rintro i j a b na nb hne ha hb ⟨hi, hj⟩
    exact hne (one_create hsequential ((hdone i).mpr hi) ((hdone j).mpr hj) ha hb)

end Runs

def sampleBody (name : List Char) : TrunkBody where
  name := some name
  enabled := true
  host := some "sip.example.com".toList
  port := 5060
  transport := "udp".toList
  authRequired := false
  username := none
  password := none
  realm := none
  registerWithTrunk := false
  registrationInterval := 300
  prefixPatterns := []
  priority := 100
  weight := 100
  costPerMinute := 0
  numberFormat := "e164".toList
  countryCode := none
  nationalPrefix := none
  callerNumberFormat := none
  callerNumberOverride := none
  callerDisplayName := none
  allowedCodecs := ["PCMU".toList, "PCMA".toList]
  maxConcurrentCalls := 100
  tlsSni := none
  tlsCaCert := none
  tlsVerify := true
  tlsClientCert := none
  tlsClientKey := none

def sampleRow : TrunkRow :=
  (sampleBody "gw".toList).row plainArrays "gw".toList "sip.example.com".toList "UDP".toList

def setPriority : Patch := ⟨[("priority".toList, .int 10)], by decide⟩

def setWeight : Patch := ⟨[("weight".toList, .int 20)], by decide⟩

def twoPatches : Bool → Request "gw".toList
  | false => .patch (some setPriority)
  | true => .patch (some setWeight)

def twoCreations : Bool → Request "gw".toList := fun _ => .create (sampleBody "gw".toList) rfl

def oneByOne : List (Action Bool) := [.read false, .write false, .read true, .write true]

def readsFirst : List (Action Bool) := [.read false, .read true, .write false, .write true]

theorem edits_kept_one_by_one : ∃ row,
    (served plainArrays (fun c => [c]) twoPatches (some sampleRow) oneByOne).cell = some row ∧
      Carries plainArrays (fun c => [c]) row setPriority := by
  have hkept := edits_kept plainArrays (fun c => [c]) "gw".toList twoPatches (some sampleRow) oneByOne
  refine (hkept ?_ ?_).1 ?_ false setPriority rfl ⟨_, rfl⟩
  · refine ⟨trivial, ?_, trivial, ?_, trivial⟩
    · intro seen written hread hok
      cases hread
      rfl
    · intro seen written hread hok
      cases hread
      rfl
  · intro i p hp e he
    cases i with
    | false =>
        cases hp
        obtain rfl := List.mem_singleton.mp he
        exact ⟨by decide, fun h => absurd h (by decide)⟩
    | true =>
        cases hp
        obtain rfl := List.mem_singleton.mp he
        exact ⟨by decide, fun h => absurd h (by decide)⟩
  · intro i j p q hne hp hq
    cases i <;> cases j <;> cases hp <;> cases hq
    · exact absurd rfl hne
    · unfold Apart
      decide
    · unfold Apart
      decide
    · exact absurd rfl hne

/-- Two patches, and two creations, that both read before either writes. -/
theorem concurrent_edits_lost :
    (Done (served plainArrays (fun c => [c]) twoPatches (some sampleRow) readsFirst) false ∧
      Done (served plainArrays (fun c => [c]) twoPatches (some sampleRow) readsFirst) true ∧
      ∃ row, (served plainArrays (fun c => [c]) twoPatches (some sampleRow) readsFirst).cell = some row ∧
          ¬Carries plainArrays (fun c => [c]) row setPriority) ∧
      Done (served plainArrays (fun c => [c]) twoCreations none readsFirst) false ∧
      Done (served plainArrays (fun c => [c]) twoCreations none readsFirst) true := by
  refine ⟨⟨⟨_, rfl⟩, ⟨_, rfl⟩, _, rfl, ?_⟩, ⟨_, rfl⟩, ⟨_, rfl⟩⟩
  intro h
  obtain ⟨f, hf, hv⟩ := h _ (List.mem_singleton_self _)
  obtain rfl : Field.priority = f := Option.some.inj hf
  cases hv

end NixiSbc.TrunkEdits
