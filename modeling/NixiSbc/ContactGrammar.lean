import NixiSbc.Identity

namespace NixiSbc.ContactGrammar

open TextScan TextFields TextLines Registrar Identity

section Grammar

/-- The inside of a quoted string: a quote or a backslash stands behind a backslash. -/
inductive Quotable : List Char → Prop
  | nil : Quotable []
  | plain {c : Char} {text : List Char} : c ≠ '"' → c ≠ '\\' → Quotable text → Quotable (c :: text)
  | escape {c : Char} {text : List Char} : Quotable text → Quotable ('\\' :: c :: text)

/-- What delimits a contact or its parts. -/
def isDelimiter (c : Char) : Bool := c = '"' ∨ c = '<' ∨ c = '>' ∨ c = ',' ∨ c = ';'

inductive Display
  | token (text : List Char)
  | quoted (inner : List Char)

inductive ParamValue
  | token (text : List Char)
  | quoted (inner : List Char)

def ParamValue.text : ParamValue → List Char
  | .token text => text
  | .quoted inner => inner

structure Param where
  name : List Char
  value : Option ParamValue

structure Contact where
  display : Option Display
  uri : List Char
  params : List Param

def inQuotes (inner : List Char) : List Char := '"' :: inner ++ ['"']

def Display.render : Display → List Char
  | .token text => text
  | .quoted inner => inQuotes inner

def ParamValue.render : ParamValue → List Char
  | .token text => text
  | .quoted inner => inQuotes inner

def Param.render (p : Param) : List Char :=
  match p.value with
  | none => p.name
  | some v => p.name ++ '=' :: v.render

/-- What stands before the URI. -/
def Contact.front (c : Contact) : List Char :=
  match c.display with
  | none => []
  | some d => d.render ++ [' ']

def Contact.render (c : Contact) : List Char :=
  c.front ++ ('<' :: c.uri ++ '>' :: c.params.flatMap fun p => ';' :: p.render)

/-- The contacts between commas, with some blanks behind each comma. -/
def renderList (gap : List Char) : List Contact → List Char
  | [] => []
  | [c] => c.render
  | c :: rest => c.render ++ ',' :: (gap ++ renderList gap rest)

def Param.hasName (name : List Char) (p : Param) : Bool := toAsciiLowercase p.name = name

def valueOf (params : List Param) (name : List Char) : Option (List Char) :=
  ((params.find? (Param.hasName name)).bind (·.value)).map ParamValue.text

/-- What the contact says. -/
def Contact.binding (c : Contact) : ContactBinding where
  uri := c.uri
  expires := (valueOf c.params "expires".toList).bind parseU32
  instanceId := valueOf c.params "+sip.instance".toList
  regId := (valueOf c.params "reg-id".toList).bind parseU32

/-- Words of a token, or the value of a parameter that is not quoted. -/
def IsToken (text : List Char) : Prop :=
  text ≠ [] ∧ ∀ c ∈ text, isDelimiter c = false ∧ isWhiteSpace c = false

structure Param.Grammatical (p : Param) : Prop where
  name : IsToken p.name ∧ '=' ∉ p.name
  token : ∀ text, p.value = some (.token text) → IsToken text
  quoted : ∀ inner, p.value = some (.quoted inner) → Quotable inner
  expires : p.hasName "expires".toList = true →
    ∃ text n, p.value = some (.token text) ∧ parseU32 text = some n
  instance_ : p.hasName "+sip.instance".toList = true → ∃ inner, p.value = some (.quoted inner)
  regId : p.hasName "reg-id".toList = true →
    ∃ text n, p.value = some (.token text) ∧ parseU32 text = some n

/-- A contact of the grammar: a display name of tokens or in quotes, a SIP URI in angle brackets, and
parameters each at most once. -/
structure Contact.Grammatical (c : Contact) : Prop where
  token : ∀ text, c.display = some (.token text) →
    text ≠ [] ∧ (∀ ch, text.head? = some ch → isWhiteSpace ch = false) ∧ ∀ ch ∈ text, isDelimiter ch = false
  quoted : ∀ inner, c.display = some (.quoted inner) → Quotable inner
  scheme : "sip:".toList <+: toAsciiLowercase c.uri ∨ "sips:".toList <+: toAsciiLowercase c.uri
  uri : ∀ ch ∈ c.uri, ch ≠ '"' ∧ ch ≠ '<' ∧ ch ≠ '>' ∧ isWhiteSpace ch = false
  params : ∀ p ∈ c.params, p.Grammatical
  once : (c.params.map fun p => toAsciiLowercase p.name).Nodup

/-- What the reader of contacts needs: a scheme in small letters, no quote and no opening bracket within a
display name, and no quote and no semicolon within a quoted parameter. -/
structure Contact.Plain (c : Contact) : Prop where
  scheme : "sip:".toList <+: c.uri ∨ "sips:".toList <+: c.uri
  display : ∀ inner, c.display = some (.quoted inner) → '"' ∉ inner ∧ '<' ∉ inner
  params : ∀ p ∈ c.params, ∀ inner, p.value = some (.quoted inner) → '"' ∉ inner ∧ ';' ∉ inner

end Grammar

section Splitter

/-- The splitter with some more text of the current item. -/
def keep (s : Splitting) (text : List Char) : Splitting := { s with cur := s.cur ++ text }

@[simp] theorem keep_out (s : Splitting) (text : List Char) : (keep s text).out = s.out := rfl
@[simp] theorem keep_cur (s : Splitting) (text : List Char) : (keep s text).cur = s.cur ++ text := rfl
@[simp] theorem keep_quoted (s : Splitting) (text : List Char) : (keep s text).quoted = s.quoted := rfl
@[simp] theorem keep_depth (s : Splitting) (text : List Char) : (keep s text).depth = s.depth := rfl

@[simp] theorem keep_keep (s : Splitting) (xs ys : List Char) : keep (keep s xs) ys = keep s (xs ++ ys) := by
  simp [keep]

/-- Outside quotes and brackets before a text and after it, with no comma of the list in it. -/
def Whole (text : List Char) : Prop :=
  ∀ s : Splitting, s.quoted = false → s.depth = 0 → text.foldl splitStep s = keep s text

theorem whole_nil : Whole [] := fun s _ _ => by simp [keep]

theorem Whole.append {xs ys : List Char} (hx : Whole xs) (hy : Whole ys) : Whole (xs ++ ys) := by
  intro s hquoted hdepth
  rw [List.foldl_append, hx s hquoted hdepth, hy (keep s xs) hquoted hdepth, keep_keep]

/-- A text is kept as a whole when each of its characters is. -/
theorem scan_keep {p : Splitting → Prop} (hkeep : ∀ s text, p s → p (keep s text)) {text : List Char}
    (hstep : ∀ c ∈ text, ∀ s, p s → splitStep s c = keep s [c]) {s : Splitting} (hs : p s) :
    text.foldl splitStep s = keep s text := by
  induction text generalizing s with
  | nil => simp [keep]
  | cons c rest ih =>
      rw [List.foldl_cons, hstep c List.mem_cons_self s hs,
        ih (fun d hd => hstep d (List.mem_cons_of_mem c hd)) (hkeep s [c] hs), keep_keep]
      rfl

theorem whole_of_plain {text : List Char} (h : ∀ c ∈ text, c ≠ '"' ∧ c ≠ '<' ∧ c ≠ '>' ∧ c ≠ ',') : Whole text := by
  refine fun s _ _ => scan_keep (p := fun _ => True) (fun _ _ hs => hs) (fun c hc s _ => ?_) trivial
  obtain ⟨hquote, hopen, hclose, hcomma⟩ := h c hc
  simp [splitStep, hquote, hopen, hclose, hcomma, keep]

theorem whole_char {c : Char} (h : c ≠ '"' ∧ c ≠ '<' ∧ c ≠ '>' ∧ c ≠ ',') : Whole [c] :=
  whole_of_plain fun _ hd => List.mem_singleton.mp hd ▸ h

/-- Within quotes everything is kept up to the next one. -/
theorem scan_quoted {inner : List Char} (h : '"' ∉ inner) {s : Splitting} (hs : s.quoted = true) :
    inner.foldl splitStep s = keep s inner := by
  refine scan_keep (p := fun s => s.quoted = true) (fun _ _ hs => hs) (fun c hc s hs => ?_) hs
  simp [splitStep, ne_of_mem_of_not_mem hc h, hs, keep]

theorem whole_inQuotes {inner : List Char} (h : '"' ∉ inner) : Whole (inQuotes inner) := by
  intro s hquoted hdepth
  have hopen : splitStep s '"' = { keep s ['"'] with quoted := true } := by simp [splitStep, hquoted, keep]
  rw [inQuotes, List.cons_append, List.foldl_cons, hopen, List.foldl_append, scan_quoted h rfl]
  simp [splitStep, hquoted, keep]

/-- Within brackets commas are kept. -/
theorem scan_bracket {uri : List Char} (h : ∀ c ∈ uri, c ≠ '"' ∧ c ≠ '<' ∧ c ≠ '>') {s : Splitting}
    (hs : s.depth = 1) : uri.foldl splitStep s = keep s uri := by
  refine scan_keep (p := fun s => s.depth = 1) (fun _ _ hs => hs) (fun c hc s hs => ?_) hs
  obtain ⟨hquote, hopen, hclose⟩ := h c hc
  simp [splitStep, hquote, hopen, hclose, hs, keep]

theorem whole_bracket {uri : List Char} (h : ∀ c ∈ uri, c ≠ '"' ∧ c ≠ '<' ∧ c ≠ '>') :
    Whole ('<' :: uri ++ ['>']) := by
  intro s hquoted hdepth
  have hopen : splitStep s '<' = { keep s ['<'] with depth := 1 } := by simp [splitStep, hquoted, hdepth, keep]
  rw [List.cons_append, List.foldl_cons, hopen, List.foldl_append, scan_bracket h rfl]
  simp [splitStep, hquoted, hdepth, keep]

theorem ne_of_not_delimiter {c : Char} (h : isDelimiter c = false) :
    c ≠ '"' ∧ c ≠ '<' ∧ c ≠ '>' ∧ c ≠ ',' ∧ c ≠ ';' := by
  simpa [isDelimiter, not_or] using h

theorem whole_of_tokens {text : List Char} (h : ∀ c ∈ text, isDelimiter c = false) : Whole text :=
  whole_of_plain fun c hc => by
    obtain ⟨hquote, hopen, hclose, hcomma, -⟩ := ne_of_not_delimiter (h c hc)
    exact ⟨hquote, hopen, hclose, hcomma⟩

end Splitter

section Items

variable {c : Contact} {p : Param}

theorem whole_param (hp : p.Grammatical) (hplain : ∀ inner, p.value = some (.quoted inner) → '"' ∉ inner ∧ ';' ∉ inner) :
    Whole p.render := by
  have hname : Whole p.name := whole_of_tokens fun c hc => (hp.name.1.2 c hc).1
  have hsign : Whole ['='] := whole_char (by decide)
  unfold Param.render
  cases hv : p.value with
  | none => exact hname
  | some v =>
      refine hname.append ((hsign.append ?_ : Whole (['='] ++ v.render)))
      cases v with
      | token text => exact whole_of_tokens fun c hc => ((hp.token text hv).2 c hc).1
      | quoted inner => exact whole_inQuotes (hplain inner hv).1

theorem whole_params {params : List Param} (h : ∀ p ∈ params, Whole p.render) :
    Whole (params.flatMap fun p => ';' :: p.render) := by
  induction params with
  | nil => exact whole_nil
  | cons p rest ih =>
      have hsemicolon : Whole [';'] := whole_char (by decide)
      have hfirst := hsemicolon.append (h p List.mem_cons_self)
      exact hfirst.append (ih fun q hq => h q (List.mem_cons_of_mem p hq))

theorem whole_front (hc : c.Grammatical) (hplain : c.Plain) : Whole c.front := by
  have hspace : Whole [' '] := whole_char (by decide)
  unfold Contact.front
  cases hd : c.display with
  | none => exact whole_nil
  | some d =>
      refine Whole.append ?_ hspace
      cases d with
      | token text => exact whole_of_tokens (hc.token text hd).2.2
      | quoted inner => exact whole_inQuotes (hplain.display inner hd).1

theorem whole_contact (hc : c.Grammatical) (hplain : c.Plain) : Whole c.render := by
  have huri := whole_bracket fun ch hch => ⟨(hc.uri ch hch).1, (hc.uri ch hch).2.1, (hc.uri ch hch).2.2.1⟩
  have hparams := whole_params fun p hp => whole_param (hc.params p hp) (hplain.params p hp)
  have hrest := huri.append hparams
  rw [List.append_assoc, List.singleton_append] at hrest
  exact (whole_front hc hplain).append hrest

/-- The splitter on a list of contacts: each goes out at its comma, but the last. -/
theorem scan_renderList {gap : List Char} (hgap : Whole gap) {first : Contact} {rest : List Contact}
    (h : ∀ c ∈ first :: rest, Whole c.render) {s : Splitting} (hquoted : s.quoted = false) (hdepth : s.depth = 0) :
    let t := (renderList gap (first :: rest)).foldl splitStep s
    t.out ++ [t.cur] = s.out ++ (s.cur ++ first.render) :: rest.map fun c => gap ++ c.render := by
  induction rest generalizing first s with
  | nil =>
      have hfirst := h first List.mem_cons_self
      simp [renderList, hfirst s hquoted hdepth]
  | cons next rest ih =>
      have hfirst := h first List.mem_cons_self s hquoted hdepth
      have hcomma : splitStep (keep s first.render) ',' =
          { out := s.out ++ [s.cur ++ first.render], cur := [], quoted := false, depth := 0 } := by
        simp [splitStep, hquoted, hdepth, keep]
      have hgaps := hgap { out := s.out ++ [s.cur ++ first.render], cur := [], quoted := false, depth := 0 } rfl rfl
      have hnext := ih (fun c hc => h c (List.mem_cons_of_mem first hc))
        (rfl : (keep { out := s.out ++ [s.cur ++ first.render], cur := [], quoted := false, depth := 0 } gap).quoted = false) rfl
      rw [renderList]
      · simp only [List.foldl_append, List.foldl_cons, hfirst, hcomma, hgaps]
        rw [hnext]
        simp
      · exact nofun

end Items

section Parameters

variable {p : Param}

/-- A parameter in a binding, a later one of the same name in the place of an earlier. -/
def Param.apply (b : ContactBinding) (p : Param) : ContactBinding :=
  let text := p.value.map ParamValue.text
  if p.hasName "expires".toList then { b with expires := text.bind parseU32 }
  else if p.hasName "+sip.instance".toList then { b with instanceId := text }
  else if p.hasName "reg-id".toList then { b with regId := text.bind parseU32 }
  else b

theorem trimMatches_apart {c : Char} {text : List Char} (h : c ∉ text) : trimMatches c text = text := by
  have hdrop {xs : List Char} (hxs : c ∉ xs) : xs.dropWhile (fun x => decide (x = c)) = xs := by
    cases xs with
    | nil => rfl
    | cons x rest => exact List.dropWhile_cons_of_neg (by simpa using (List.ne_of_not_mem_cons hxs).symm)
  rw [trimMatches, hdrop h, hdrop (fun hc => h (List.mem_reverse.mp hc)), List.reverse_reverse]

theorem trim_inQuotes (inner : List Char) : trim (inQuotes inner) = inQuotes inner := by
  apply trim_eq_self
  case hhead =>
    intro c hc
    cases hc
    decide
  case hlast =>
    intro c hc
    rw [inQuotes, List.getLast?_append, List.getLast?_singleton] at hc
    cases hc
    decide

/-- A value is read without its quotes. -/
theorem value_render {v : ParamValue} (htoken : ∀ text, v = .token text → IsToken text)
    (hquoted : ∀ inner, v = .quoted inner → '"' ∉ inner) : trimMatches '"' (trim v.render) = v.text := by
  cases v with
  | token text =>
      obtain ⟨hne, hall⟩ := htoken text rfl
      have hword : trim text = text := TextWords.trim_of_isWord ⟨hne, fun c hc => (hall c hc).2⟩
      have hquote : '"' ∉ text := fun hmem => (ne_of_not_delimiter (hall _ hmem).1).1 rfl
      exact (congrArg (trimMatches '"') hword).trans (trimMatches_apart hquote)
  | quoted inner =>
      exact (congrArg (trimMatches '"') (trim_inQuotes inner)).trans (trimMatches_wrapped (hquoted inner rfl))

/-- A parameter by its name in small letters and its value. -/
def setParameter (b : ContactBinding) (name val : List Char) : Except (List Char) ContactBinding :=
  if name = "expires".toList then
    match parseU32 val with
    | some n => .ok { b with expires := some n }
    | none => .error ("bad expires '".toList ++ val ++ "' in Contact".toList)
  else if name = "+sip.instance".toList then .ok { b with instanceId := some val }
  else if name = "reg-id".toList then .ok { b with regId := parseU32 val }
  else .ok b

theorem contactParameter_alone {name : List Char} (h : '=' ∉ name) (b : ContactBinding) :
    contactParameter b name = setParameter b (toAsciiLowercase (trim name)) [] := by
  rw [contactParameter, splitOnce, if_neg h]
  rfl

theorem contactParameter_value {name : List Char} (h : '=' ∉ name) (value : List Char) (b : ContactBinding) :
    contactParameter b (name ++ '=' :: value) =
      setParameter b (toAsciiLowercase (trim name)) (trimMatches '"' (trim value)) := by
  rw [contactParameter, splitOnce_append h]
  rfl

theorem contactParameter_render (hp : p.Grammatical)
    (hplain : ∀ inner, p.value = some (.quoted inner) → '"' ∉ inner ∧ ';' ∉ inner) (b : ContactBinding) :
    contactParameter b p.render = .ok (Param.apply b p) := by
  have hname : trim p.name = p.name :=
    TextWords.trim_of_isWord ⟨hp.name.1.1, fun c hc => (hp.name.1.2 c hc).2⟩
  have hset : contactParameter b p.render =
      setParameter b (toAsciiLowercase p.name) ((p.value.map ParamValue.text).getD []) := by
    unfold Param.render
    cases hv : p.value with
    | none => exact (contactParameter_alone hp.name.2 b).trans (by rw [hname]; rfl)
    | some v =>
        have hvalue : trimMatches '"' (trim v.render) = v.text :=
          value_render (fun text h => hp.token text (h ▸ hv)) fun inner h => (hplain inner (h ▸ hv)).1
        exact (contactParameter_value hp.name.2 v.render b).trans (by rw [hname, hvalue]; rfl)
  have hnamed (name : List Char) : p.hasName name = true ↔ toAsciiLowercase p.name = name := decide_eq_true_iff
  rw [hset, setParameter, Param.apply]
  by_cases hexpires : p.hasName "expires".toList = true
  · obtain ⟨text, n, hv, hn⟩ := hp.expires hexpires
    rw [if_pos ((hnamed _).mp hexpires), if_pos hexpires, hv]
    simp [ParamValue.text, hn]
  · rw [if_neg ((hnamed _).not.mp hexpires), if_neg hexpires]
    by_cases hinstance : p.hasName "+sip.instance".toList = true
    · obtain ⟨inner, hv⟩ := hp.instance_ hinstance
      rw [if_pos ((hnamed _).mp hinstance), if_pos hinstance, hv]
      rfl
    · rw [if_neg ((hnamed _).not.mp hinstance), if_neg hinstance]
      by_cases hreg : p.hasName "reg-id".toList = true
      · obtain ⟨text, n, hv, hn⟩ := hp.regId hreg
        rw [if_pos ((hnamed _).mp hreg), if_pos hreg, hv]
        rfl
      · rw [if_neg ((hnamed _).not.mp hreg), if_neg hreg]

theorem foldlM_parameters {params : List Param} (hp : ∀ p ∈ params, p.Grammatical)
    (hplain : ∀ p ∈ params, ∀ inner, p.value = some (.quoted inner) → '"' ∉ inner ∧ ';' ∉ inner) (b : ContactBinding) :
    (params.map Param.render).foldlM contactParameter b = .ok (params.foldl Param.apply b) := by
  induction params generalizing b with
  | nil => rfl
  | cons p rest ih =>
      rw [List.map_cons, List.foldlM_cons, List.foldl_cons,
        contactParameter_render (hp p List.mem_cons_self) (hplain p List.mem_cons_self)]
      exact ih (fun q hq => hp q (List.mem_cons_of_mem p hq)) (fun q hq => hplain q (List.mem_cons_of_mem p hq)) _

/-- What the parameters of different names leave in one field of a binding. -/
theorem field_foldl {β : Type} (name : List Char) (field : ContactBinding → β) (f : Param → β)
    (hset : ∀ b p, p.hasName name = true → field (Param.apply b p) = f p)
    (hkeep : ∀ b p, p.hasName name = false → field (Param.apply b p) = field b) {params : List Param}
    (honce : (params.map fun p => toAsciiLowercase p.name).Nodup) (b : ContactBinding) :
    field (params.foldl Param.apply b) = ((params.find? (Param.hasName name)).map f).getD (field b) := by
  induction params generalizing b with
  | nil => rfl
  | cons p rest ih =>
      obtain ⟨hfresh, hrest⟩ := List.nodup_cons.mp honce
      rw [List.foldl_cons, ih hrest, List.find?_cons]
      cases hname : p.hasName name with
      | false => rw [hkeep b p hname]
      | true =>
          have hnone : rest.find? (Param.hasName name) = none := by
            rw [List.find?_eq_none]
            intro q hq hq'
            have hsame : toAsciiLowercase q.name = toAsciiLowercase p.name :=
              (of_decide_eq_true hq').trans (of_decide_eq_true hname).symm
            exact hfresh (List.mem_map.mpr ⟨q, hq, hsame⟩)
          rw [hnone, hset b p hname]
          rfl

theorem hasName_ne {name other : List Char} (h : p.hasName name = true) (hne : name ≠ other) : p.hasName other = false :=
  decide_eq_false fun heq => hne ((of_decide_eq_true h).symm.trans heq)

theorem uri_foldl (params : List Param) (b : ContactBinding) : (params.foldl Param.apply b).uri = b.uri := by
  induction params generalizing b with
  | nil => rfl
  | cons p rest ih =>
      have hstep : (Param.apply b p).uri = b.uri := by
        unfold Param.apply
        split_ifs <;> rfl
      rw [List.foldl_cons, ih, hstep]

theorem expires_apply (b : ContactBinding) (p : Param) : (Param.apply b p).expires =
    if p.hasName "expires".toList then (p.value.map ParamValue.text).bind parseU32 else b.expires := by
  unfold Param.apply
  split_ifs <;> rfl

theorem instanceId_apply (b : ContactBinding) (p : Param) : (Param.apply b p).instanceId =
    if p.hasName "+sip.instance".toList then p.value.map ParamValue.text else b.instanceId := by
  have hne : "expires".toList ≠ "+sip.instance".toList := by decide
  unfold Param.apply
  by_cases hexpires : p.hasName "expires".toList = true
  · rw [if_pos hexpires, hasName_ne hexpires hne]
    rfl
  · rw [if_neg hexpires]
    split_ifs <;> rfl

theorem regId_apply (b : ContactBinding) (p : Param) : (Param.apply b p).regId =
    if p.hasName "reg-id".toList then (p.value.map ParamValue.text).bind parseU32 else b.regId := by
  have hne : "expires".toList ≠ "reg-id".toList := by decide
  have hne' : "+sip.instance".toList ≠ "reg-id".toList := by decide
  unfold Param.apply
  by_cases hexpires : p.hasName "expires".toList = true
  · rw [if_pos hexpires, hasName_ne hexpires hne]
    rfl
  · rw [if_neg hexpires]
    by_cases hinstance : p.hasName "+sip.instance".toList = true
    · rw [if_pos hinstance, hasName_ne hinstance hne']
      rfl
    · rw [if_neg hinstance]
      split_ifs <;> rfl

/-- In whatever order the parameters stand, the binding is what they say. -/
theorem foldl_binding {c : Contact} (honce : (c.params.map fun p => toAsciiLowercase p.name).Nodup) :
    c.params.foldl Param.apply ⟨c.uri, none, none, none⟩ = c.binding := by
  have huri := uri_foldl c.params ⟨c.uri, none, none, none⟩
  have hexpires := field_foldl "expires".toList (·.expires) (fun p => (p.value.map ParamValue.text).bind parseU32)
    (fun b p h => (expires_apply b p).trans (if_pos h))
    (fun b p h => (expires_apply b p).trans (if_neg (Bool.eq_false_iff.mp h))) honce ⟨c.uri, none, none, none⟩
  have hid := field_foldl "+sip.instance".toList (·.instanceId) (fun p => p.value.map ParamValue.text)
    (fun b p h => (instanceId_apply b p).trans (if_pos h))
    (fun b p h => (instanceId_apply b p).trans (if_neg (Bool.eq_false_iff.mp h))) honce ⟨c.uri, none, none, none⟩
  have hregId := field_foldl "reg-id".toList (·.regId) (fun p => (p.value.map ParamValue.text).bind parseU32)
    (fun b p h => (regId_apply b p).trans (if_pos h))
    (fun b p h => (regId_apply b p).trans (if_neg (Bool.eq_false_iff.mp h))) honce ⟨c.uri, none, none, none⟩
  have hfind {β : Type} (name : List Char) (f : List Char → Option β) :
      ((c.params.find? (Param.hasName name)).map fun p => (p.value.map ParamValue.text).bind f).getD none =
        (valueOf c.params name).bind f := by
    unfold valueOf
    cases c.params.find? (Param.hasName name) <;> rfl
  have hfindId : ((c.params.find? (Param.hasName "+sip.instance".toList)).map fun p =>
      p.value.map ParamValue.text).getD none = valueOf c.params "+sip.instance".toList := by
    unfold valueOf
    cases c.params.find? (Param.hasName "+sip.instance".toList) <;> rfl
  rw [hfind] at hexpires hregId
  rw [hfindId] at hid
  generalize c.params.foldl Param.apply ⟨c.uri, none, none, none⟩ = result at huri hexpires hid hregId ⊢
  obtain ⟨uri, expires, instanceId, regId⟩ := result
  cases huri
  cases hexpires
  cases hid
  cases hregId
  rfl

end Parameters

section Reading

variable {c : Contact} {p : Param}

/-- No blank at the beginning, none at the end. -/
def Starts (text : List Char) : Prop := ∀ ch, text.head? = some ch → isWhiteSpace ch = false

def Ends (text : List Char) : Prop := ∀ ch, text.getLast? = some ch → isWhiteSpace ch = false

theorem Ends.append {xs ys : List Char} (hx : Ends xs) (hy : Ends ys) : Ends (xs ++ ys) := by
  intro ch hch
  rw [List.getLast?_append] at hch
  cases hlast : ys.getLast? with
  | none =>
      rw [hlast] at hch
      exact hx ch hch
  | some last =>
      rw [hlast] at hch
      cases hch
      exact hy ch hlast

theorem ends_of_word {text : List Char} (h : ∀ ch ∈ text, isWhiteSpace ch = false) : Ends text :=
  fun ch hch => h ch (List.mem_of_getLast? hch)

theorem ends_concat (text : List Char) {ch : Char} (h : isWhiteSpace ch = false) : Ends (text ++ [ch]) := by
  intro last hlast
  rw [List.getLast?_concat] at hlast
  exact Option.some.inj hlast ▸ h

theorem ends_param (hp : p.Grammatical) : Ends p.render := by
  have hname : Ends p.name := ends_of_word fun ch hch => (hp.name.1.2 ch hch).2
  have hsign : Ends ['='] := ends_concat [] rfl
  unfold Param.render
  cases hv : p.value with
  | none => exact hname
  | some v =>
      refine hname.append (hsign.append (?_ : Ends v.render))
      cases v with
      | token text => exact ends_of_word fun ch hch => ((hp.token text hv).2 ch hch).2
      | quoted inner => exact ends_concat ('"' :: inner) rfl

theorem starts_append {xs ys : List Char} (hx : Starts xs) (hne : xs ≠ []) : Starts (xs ++ ys) := by
  intro ch hch
  rw [List.head?_append_of_ne_nil _ hne] at hch
  exact hx ch hch

theorem trim_param (hp : p.Grammatical) : trim p.render = p.render := by
  refine trim_eq_self ?_ (ends_param hp)
  have hname : Starts p.name := fun ch hch => (hp.name.1.2 ch (List.mem_of_head? hch)).2
  unfold Param.render
  cases p.value with
  | none => exact hname
  | some v => exact starts_append hname hp.name.1.1

theorem ends_params {params : List Param} (h : ∀ p ∈ params, p.Grammatical) :
    Ends (params.flatMap fun p => ';' :: p.render) := by
  induction params with
  | nil => exact nofun
  | cons p rest ih =>
      have hsemicolon : Ends [';'] := ends_concat [] rfl
      have hfirst : Ends (';' :: p.render) := hsemicolon.append (ends_param (h p List.mem_cons_self))
      exact hfirst.append (ih fun q hq => h q (List.mem_cons_of_mem p hq))

theorem trim_contact (hc : c.Grammatical) : trim c.render = c.render := by
  apply trim_eq_self
  case hhead =>
    unfold Contact.render Contact.front
    cases hd : c.display with
    | none =>
        intro ch hch
        cases hch
        rfl
    | some d =>
        rw [List.append_assoc]
        cases d with
        | token text =>
            obtain ⟨hne, hstarts, -⟩ := hc.token text hd
            exact starts_append hstarts hne
        | quoted inner =>
            intro ch hch
            cases hch
            rfl
  case hlast =>
    have hbracket : Ends (c.front ++ ('<' :: c.uri) ++ ['>']) := ends_concat _ rfl
    have hall := hbracket.append (ends_params hc.params)
    rw [List.append_assoc, List.append_assoc] at hall
    exact hall

theorem find_append {ch : Char} {front : List Char} (h : ch ∉ front) (rest : List Char) :
    find ch (front ++ ch :: rest) = some front.length := by
  induction front with
  | nil => rw [List.nil_append, find, List.idxOf?_cons, if_pos (beq_self_eq_true ch)]; rfl
  | cons d front ih =>
      obtain ⟨hd, hfront⟩ := List.ne_and_not_mem_of_not_mem_cons h
      have hrest := ih hfront
      rw [find] at hrest ⊢
      rw [List.cons_append, List.idxOf?_cons, if_neg (by simpa using hd.symm), hrest]
      rfl

theorem splitOn_params {parts : List (List Char)} (h : ∀ part ∈ parts, ';' ∉ part) :
    (parts.flatMap (';' :: ·)).splitOn ';' = [] :: parts := by
  have hjoin (first : List Char) (parts : List (List Char)) :
      [';'].intercalate (first :: parts) = first ++ parts.flatMap (';' :: ·) := by
    induction parts generalizing first with
    | nil => simp
    | cons part parts ih => rw [List.intercalate_cons_cons, ih, List.flatMap_cons]; simp
  have hall : ∀ part ∈ [] :: parts, ';' ∉ part :=
    List.forall_mem_cons.mpr ⟨List.not_mem_nil, h⟩
  have hsplit := List.splitOn_intercalate (x := ';') hall (List.cons_ne_nil _ _)
  rwa [hjoin, List.nil_append] at hsplit

theorem no_semicolon (hp : p.Grammatical)
    (hplain : ∀ inner, p.value = some (.quoted inner) → '"' ∉ inner ∧ ';' ∉ inner) : ';' ∉ p.render := by
  have htokens {text : List Char} (h : ∀ ch ∈ text, isDelimiter ch = false) : ';' ∉ text :=
    fun hmem => (ne_of_not_delimiter (h _ hmem)).2.2.2.2 rfl
  have hname : ';' ∉ p.name := htokens fun ch hch => (hp.name.1.2 ch hch).1
  unfold Param.render
  cases hv : p.value with
  | none => exact hname
  | some v =>
      refine List.not_mem_append hname (List.not_mem_cons_of_ne_of_not_mem (by decide) ?_)
      cases v with
      | token text => exact htokens fun ch hch => ((hp.token text hv).2 ch hch).1
      | quoted inner =>
          exact List.not_mem_append (List.not_mem_cons_of_ne_of_not_mem (by decide) (hplain inner hv).2) (by decide)

theorem no_bracket (hc : c.Grammatical) (hplain : c.Plain) : '<' ∉ c.front := by
  unfold Contact.front
  cases hd : c.display with
  | none => exact List.not_mem_nil
  | some d =>
      refine List.not_mem_append ?_ (by decide)
      cases d with
      | token text => exact fun hmem => (ne_of_not_delimiter ((hc.token text hd).2.2 _ hmem)).2.1 rfl
      | quoted inner =>
          exact List.not_mem_append (List.not_mem_cons_of_ne_of_not_mem (by decide) (hplain.display inner hd).2)
            (by decide)

/-- The URI and the parameters of a contact are found in its text. -/
theorem contactParts_render (hc : c.Grammatical) (hplain : c.Plain) :
    contactParts c.render = .ok (c.uri, c.params.map Param.render) := by
  have hopen : find '<' c.render = some c.front.length := find_append (no_bracket hc hplain) _
  have hdrop : c.render.drop c.front.length = '<' :: c.uri ++ '>' :: c.params.flatMap fun p => ';' :: p.render := by
    rw [Contact.render, List.drop_left]
  have hnone : '>' ∉ '<' :: c.uri :=
    List.not_mem_cons_of_ne_of_not_mem (by decide) fun hmem => (hc.uri _ hmem).2.2.1 rfl
  have hclose : find '>' (c.render.drop c.front.length) = some (c.uri.length + 1) := by
    rw [hdrop, find_append hnone]
    rfl
  have huri : trim (between c.front.length (c.front.length + (c.uri.length + 1)) c.render) = c.uri := by
    have htake : c.render.take (c.front.length + (c.uri.length + 1)) = c.front ++ '<' :: c.uri := by
      rw [Contact.render, List.take_length_add_append]
      exact congrArg (c.front ++ ·) (List.take_left' rfl)
    have hword : trim c.uri = c.uri :=
      trim_eq_self (fun ch hch => (hc.uri ch (List.mem_of_head? hch)).2.2.2)
        fun ch hch => (hc.uri ch (List.mem_of_getLast? hch)).2.2.2
    have hcut : (c.front ++ '<' :: c.uri).drop (c.front.length + 1) = c.uri := List.drop_length_add_append ..
    rw [between, htake, hcut, hword]
  have hparams : (((c.render.drop (c.front.length + (c.uri.length + 1) + 1)).splitOn ';').drop 1).map trim =
      c.params.map Param.render := by
    have htail : c.render.drop (c.front.length + (c.uri.length + 1) + 1) =
        (c.params.map Param.render).flatMap (';' :: ·) := by
      rw [List.flatMap_map, ← List.drop_drop, ← List.drop_drop, hdrop]
      exact congrArg (List.drop 1) (List.drop_left' rfl)
    have hall : ∀ part ∈ c.params.map Param.render, ';' ∉ part := by
      intro part hpart
      obtain ⟨p, hp, rfl⟩ := List.mem_map.mp hpart
      exact no_semicolon (hc.params p hp) (hplain.params p hp)
    rw [htail, splitOn_params hall, List.drop_one, List.tail_cons, List.map_map]
    exact List.map_congr_left fun p hp => trim_param (hc.params p hp)
  rw [contactParts, hopen, Option.bind_some, hclose]
  dsimp only [Option.map_some]
  rw [huri, hparams]

theorem contactItem_render (hc : c.Grammatical) (hplain : c.Plain) : contactItem c.render = .ok c.binding := by
  have hcolon : ':' ∈ c.uri := by
    rcases hplain.scheme with ⟨rest, hrest⟩ | ⟨rest, hrest⟩
    · exact hrest ▸ List.mem_append_left rest (by decide)
    · exact hrest ▸ List.mem_append_left rest (by decide)
  have hsip : ¬ (¬("sip:".toList <+: c.uri ∨ "sips:".toList <+: c.uri) ∨ ('@' ∉ c.uri ∧ ':' ∉ c.uri)) := by
    rintro (hno | hno)
    · exact hno hplain.scheme
    · exact hno.2 hcolon
  have hfold := foldlM_parameters hc.params hplain.params ⟨c.uri, none, none, none⟩
  rw [foldl_binding hc.once] at hfold
  rw [contactItem, contactParts_render hc hplain]
  exact (if_neg hsip).trans hfold

theorem mapM_contacts {cs : List Contact} (h : ∀ c ∈ cs, c.Grammatical ∧ c.Plain) :
    (cs.map Contact.render).mapM contactItem = .ok (cs.map Contact.binding) := by
  induction cs with
  | nil => rfl
  | cons c rest ih =>
      obtain ⟨hc, hplain⟩ := h c List.mem_cons_self
      rw [List.map_cons, List.mapM_cons, contactItem_render hc hplain, ih fun d hd => h d (List.mem_cons_of_mem c hd)]
      rfl

theorem bracket_mem (c : Contact) : '<' ∈ c.render := List.mem_append_right _ List.mem_cons_self

theorem trim_gap {gap : List Char} (hgap : ∀ ch ∈ gap, isWhiteSpace ch = true) (text : List Char) :
    trim (gap ++ text) = trim text := by
  rw [trim, trim, trimStart, trimStart, List.dropWhile_append_of_pos hgap]

theorem splitContacts_render {gap : List Char} (hgap : ∀ ch ∈ gap, isWhiteSpace ch = true) {cs : List Contact}
    (hne : cs ≠ []) (h : ∀ c ∈ cs, c.Grammatical ∧ c.Plain) : splitContacts (renderList gap cs) = cs.map Contact.render := by
  obtain ⟨first, rest, rfl⟩ := List.exists_cons_of_ne_nil hne
  have hwhole : Whole gap := whole_of_plain fun ch hch => by
    refine ⟨?_, ?_, ?_, ?_⟩
    all_goals
      rintro rfl
      cases hgap _ hch
  have hscan := scan_renderList hwhole (fun c hc => whole_contact (h c hc).1 (h c hc).2)
    (rfl : (⟨[], [], false, 0⟩ : Splitting).quoted = false) rfl
  have htrim : (first.render :: rest.map fun c => gap ++ c.render).map trim = (first :: rest).map Contact.render := by
    rw [List.map_cons, List.map_cons, List.map_map, trim_contact (h first List.mem_cons_self).1]
    refine congrArg _ (List.map_congr_left fun c hc => ?_)
    exact (trim_gap hgap _).trans (trim_contact (h c (List.mem_cons_of_mem first hc)).1)
  have hkeep : ((first :: rest).map Contact.render).filter (fun text => decide (text ≠ [])) =
      (first :: rest).map Contact.render := by
    rw [List.filter_eq_self]
    intro text htext
    obtain ⟨c, -, rfl⟩ := List.mem_map.mp htext
    exact decide_eq_true (List.ne_nil_of_mem (bracket_mem c))
  rw [splitContacts]
  dsimp only at hscan ⊢
  rw [hscan, List.nil_append, List.nil_append, htrim, hkeep]

theorem bracket_mem_list (gap : List Char) {cs : List Contact} (hne : cs ≠ []) : '<' ∈ renderList gap cs := by
  fun_cases renderList gap cs with
  | case1 => exact absurd rfl hne
  | case2 c => exact bracket_mem c
  | case3 c rest => exact List.mem_append_left _ (bracket_mem c)

/-- A list of contacts is read for what it was written from, as long as they are plain. -/
theorem parseContactHeader_render (gap : List Char) (hgap : ∀ ch ∈ gap, isWhiteSpace ch = true) (cs : List Contact)
    (hne : cs ≠ []) (hgrammar : ∀ c ∈ cs, c.Grammatical) (hplain : ∀ c ∈ cs, c.Plain) :
    parseContactHeader (renderList gap cs) = .ok (some (cs.map Contact.binding)) := by
  have h : ∀ c ∈ cs, c.Grammatical ∧ c.Plain := fun c hc => ⟨hgrammar c hc, hplain c hc⟩
  have hstar : trim (renderList gap cs) ≠ ['*'] := by
    intro heq
    have hmem := mem_trim (bracket_mem_list gap hne) rfl
    rw [heq] at hmem
    exact absurd (List.mem_singleton.mp hmem) (by decide)
  have hsome : cs.map Contact.binding ≠ [] := fun heq => hne (List.map_eq_nil_iff.mp heq)
  rw [parseContactHeader, if_neg hstar, splitContacts_render hgap hne h, mapM_contacts h]
  exact if_neg hsome

end Reading

section Cases

theorem quotable_of_all {inner : List Char} (h : inner.all (fun ch => ch ≠ '"' && ch ≠ '\\') = true) : Quotable inner := by
  induction inner with
  | nil => exact .nil
  | cons ch rest ih =>
      rw [List.all_cons, Bool.and_eq_true, Bool.and_eq_true, decide_eq_true_iff, decide_eq_true_iff] at h
      exact .plain h.1.1 h.1.2 (ih h.2)

theorem isToken_of_all {text : List Char} (hne : text ≠ [])
    (h : text.all (fun ch => !isDelimiter ch && !isWhiteSpace ch) = true) : IsToken text :=
  ⟨hne, fun ch hch => by simpa using List.all_eq_true.mp h ch hch⟩

/-- A contact with a display name in quotes. -/
def named (inner uri : List Char) (params : List Param) : Contact := ⟨some (.quoted inner), uri, params⟩

theorem grammatical_named {inner uri : List Char} {params : List Param} (hinner : Quotable inner)
    (hscheme : "sip:".toList <+: toAsciiLowercase uri)
    (huri : uri.all (fun ch => ch ≠ '"' && ch ≠ '<' && ch ≠ '>' && !isWhiteSpace ch) = true)
    (hparams : ∀ p ∈ params, p.Grammatical) (honce : (params.map fun p => toAsciiLowercase p.name).Nodup) :
    (named inner uri params).Grammatical where
  token := nofun
  quoted := fun _ h => by
    cases h
    exact hinner
  scheme := .inl hscheme
  uri := fun ch hch => by simpa [and_assoc] using List.all_eq_true.mp huri ch hch
  params := hparams
  once := honce

def expiresParam : Param := ⟨"Expires".toList, some (.token "60".toList)⟩
def instanceParam : Param := ⟨"+SIP.instance".toList, some (.quoted "<urn:uuid:1,2>".toList)⟩
def textParam : Param := ⟨"text".toList, some (.quoted "a;expires=5".toList)⟩

theorem grammatical_expires : expiresParam.Grammatical where
  name := ⟨isToken_of_all (by decide) (by decide), by decide⟩
  token := fun _ h => by
    cases h
    exact isToken_of_all (by decide) (by decide)
  quoted := nofun
  expires := fun _ => ⟨_, 60, rfl, by decide⟩
  instance_ := fun h => absurd h (by decide)
  regId := fun h => absurd h (by decide)

theorem grammatical_instance : instanceParam.Grammatical where
  name := ⟨isToken_of_all (by decide) (by decide), by decide⟩
  token := nofun
  quoted := fun _ h => by
    cases h
    exact quotable_of_all (by decide)
  expires := fun h => absurd h (by decide)
  instance_ := fun _ => ⟨_, rfl⟩
  regId := fun h => absurd h (by decide)

theorem grammatical_text : textParam.Grammatical where
  name := ⟨isToken_of_all (by decide) (by decide), by decide⟩
  token := nofun
  quoted := fun _ h => by
    cases h
    exact quotable_of_all (by decide)
  expires := fun h => absurd h (by decide)
  instance_ := fun h => absurd h (by decide)
  regId := fun h => absurd h (by decide)

theorem forall_pair {α : Type} {P : α → Prop} {a b : α} (ha : P a) (hb : P b) : ∀ x ∈ [a, b], P x := by
  intro x hx
  rcases List.mem_pair.mp hx with rfl | rfl
  · exact ha
  · exact hb

def commaName : Contact := named "Doe, J; x>".toList "sip:j@h;transport=tcp".toList [instanceParam, expiresParam]

theorem grammatical_commaName : commaName.Grammatical :=
  grammatical_named (quotable_of_all (by decide)) (by decide) (by decide)
    (forall_pair grammatical_instance grammatical_expires) (by decide)

theorem plain_commaName : commaName.Plain where
  scheme := .inl (by decide)
  display := fun _ h => by
    cases h
    exact ⟨by decide, by decide⟩
  params := forall_pair (fun _ h => by cases h; exact ⟨by decide, by decide⟩) nofun

/-- A list of two contacts with commas, semicolons and brackets in them. -/
theorem parseContactHeader_commaName :
    parseContactHeader (renderList [' '] [commaName, commaName]) =
      .ok (some [commaName.binding, commaName.binding]) ∧
      commaName.binding = ⟨"sip:j@h;transport=tcp".toList, some 60, some "<urn:uuid:1,2>".toList, none⟩ := by
  have hgap : ∀ ch ∈ [' '], isWhiteSpace ch = true := fun _ hch => List.mem_singleton.mp hch ▸ rfl
  exact ⟨parseContactHeader_render [' '] hgap [commaName, commaName] (by simp)
    (forall_pair grammatical_commaName grammatical_commaName) (forall_pair plain_commaName plain_commaName), by decide⟩

/-- A bracket in a display name, an escaped quote in one, and a semicolon in a quoted parameter. -/
theorem parseContactHeader_confused :
    let bracket := named "a<b".toList "sip:x@y".toList []
    let quote := named "a\\\"b".toList "sip:x@y".toList []
    let semicolon := named "a".toList "sip:x@y".toList [textParam]
    (bracket.Grammatical ∧ parseContactHeader (renderList [] [bracket]) ≠ .ok (some [bracket.binding])) ∧
      (quote.Grammatical ∧ parseContactHeader (renderList [] [quote, quote]) ≠ .ok (some [quote.binding, quote.binding])) ∧
      (semicolon.Grammatical ∧ parseContactHeader (renderList [] [semicolon]) ≠ .ok (some [semicolon.binding])) := by
  have hnone : ∀ p ∈ ([] : List Param), p.Grammatical := fun _ h => absurd h List.not_mem_nil
  have htext : ∀ p ∈ [textParam], p.Grammatical := fun _ h => List.mem_singleton.mp h ▸ grammatical_text
  have hescape : Quotable "a\\\"b".toList := .plain (by decide) (by decide) (.escape (quotable_of_all (by decide)))
  refine ⟨⟨?_, ?_⟩, ⟨?_, ?_⟩, ?_, ?_⟩
  · exact grammatical_named (quotable_of_all (by decide)) (by decide) (by decide) hnone List.nodup_nil
  · decide +kernel
  · exact grammatical_named hescape (by decide) (by decide) hnone List.nodup_nil
  · decide +kernel
  · exact grammatical_named (quotable_of_all (by decide)) (by decide) (by decide) htext (by decide)
  · decide +kernel

end Cases

end NixiSbc.ContactGrammar
