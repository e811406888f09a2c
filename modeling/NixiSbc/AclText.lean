import NixiSbc.Hydration
import NixiSbc.TextWords

namespace NixiSbc.AclText

open TextScan TextFields TextLines TextWords RawSip KeyedTable NetAddr Acl
open Hydration (Error)

section Numbers

def showInt (z : Int32) : List Char :=
  if z < 0 then '-' :: showNat z.toInt.natAbs else showNat z.toInt.natAbs

/-- A decimal number of 32 bits with an optional sign. -/
def parseI32 (text : List Char) : Option Int32 :=
  let (negative, digits) :=
    match text with
    | '-' :: rest => (true, rest)
    | _ => (false, stripPlus text)
  if digits ≠ [] ∧ digits.all isDigit then
    if negative then if decimal digits ≤ 2 ^ 31 then some (.ofInt (-decimal digits)) else none
    else if decimal digits < 2 ^ 31 then some (.ofInt (decimal digits)) else none
  else none

theorem toInt_eq_natAbs {z : Int32} (h : z < 0) : z.toInt = -(z.toInt.natAbs : Int) := by
  have hneg : z.toInt < 0 := Int32.lt_iff_toInt_lt.mp h
  omega

theorem natAbs_eq_toInt {z : Int32} (h : ¬z < 0) : (z.toInt.natAbs : Int) = z.toInt := by
  have hpos : ¬z.toInt < 0 := fun hneg => h (Int32.lt_iff_toInt_lt.mpr hneg)
  omega

theorem digits_showNat (n : Nat) : showNat n ≠ [] ∧ (showNat n).all isDigit :=
  ⟨showNat_ne_nil n, List.all_eq_true.mpr fun _ hc => isDigit_of_mem_showNat hc⟩

/-- A number is read as it was written. -/
theorem parseI32_showInt (z : Int32) : parseI32 (showInt z) = some z := by
  have hlow := z.le_toInt
  have hhigh := z.toInt_lt
  by_cases hneg : z < 0
  · have hbound : z.toInt.natAbs ≤ 2 ^ 31 := by omega
    rw [showInt, if_pos hneg, parseI32, if_pos (digits_showNat _), decimal_showNat, if_pos rfl, if_pos hbound,
      ← toInt_eq_natAbs hneg, Int32.ofInt_toInt]
  · have habs := natAbs_eq_toInt hneg
    have hbound : z.toInt.natAbs < 2 ^ 31 := by omega
    rw [showInt, if_neg hneg, parseI32]
    · rw [stripPlus_showNat, if_pos (digits_showNat _), decimal_showNat, if_neg Bool.false_ne_true, if_pos hbound, habs,
        Int32.ofInt_toInt]
    · intro rest hminus
      have hdigit := isDigit_of_mem_showNat (hminus ▸ List.mem_cons_self : '-' ∈ showNat z.toInt.natAbs)
      cases hdigit

theorem isWord_showInt (z : Int32) : IsWord (showInt z) := by
  rw [showInt]
  split
  · refine ⟨List.cons_ne_nil _ _, fun c hc => ?_⟩
    rcases List.mem_cons.mp hc with rfl | hc
    · rfl
    · exact (isWord_showNat _).2 c hc
  · exact isWord_showNat _

end Numbers

/-- The first pieces between separators; the last one takes the rest. -/
def splitN (sep : Char) : Nat → List Char → List (List Char)
  | 0, _ => []
  | 1, text => [text]
  | n + 2, text =>
      match splitOnce sep text with
      | some (piece, rest) => piece :: splitN sep (n + 1) rest
      | none => [text]

/-- How networks are written, and what is said of a text that is none. -/
structure NetworkTexts (N : Networks) where
  text : N.Net → List Char
  complaint : List Char → List Char
  parse_text : ∀ net, N.parse (text net) = some net
  isWord_text : ∀ net, IsWord (text net)
  no_bar : ∀ net, '|' ∉ text net

def showAction : AclAction → List Char
  | .allow => "allow".toList
  | .deny => "deny".toList
  | .log => "log".toList

section

variable (U : Lowering)

def parseAction (text : List Char) : Except Error AclAction :=
  let lower := toLowercase U text
  if lower = "allow".toList ∨ lower = "permit".toList ∨ lower = "accept".toList then .ok .allow
  else if lower = "deny".toList ∨ lower = "drop".toList ∨ lower = "block".toList then .ok .deny
  else if lower = "log".toList ∨ lower = "warn".toList then .ok .log
  else .error (.config ("unknown ACL action: '".toList ++ lower ++ ['\'']))

variable {N : Networks} (T : NetworkTexts N)

def parseCidr (cidr : List Char) : Except Error N.Net :=
  match N.parse cidr with
  | some net => .ok net
  | none => .error (.config ("invalid CIDR '".toList ++ cidr ++ "': ".toList ++ T.complaint cidr))

def AclRule.new (id name cidr : List Char) (action : AclAction) (priority : Int32) : Except Error (AclRule N) := do
  let net ← parseCidr T cidr
  return ⟨id, name, net, action, priority, .both, true, none⟩

def addRule (m : AclManager N) (rule : AclRule N) : AclManager N := { m with rules := m.rules.insert rule.id rule }

def parsePriority (text : List Char) : Except Error Int32 :=
  match parseI32 (trim text) with
  | some priority => .ok priority
  | none => .error (.config ("invalid priority: ".toList ++ text))

/-- The rule on a line; blank lines, comments and lines of too few fields have none. -/
def readLine (rawLine : List Char) : Except Error (Option (AclRule N)) :=
  let line := trim rawLine
  if line = [] ∨ ['#'] <+: line then .ok none
  else
    match splitN '|' 5 line with
    | [id, name, cidr, actionText, priorityText] => do
        let action ← parseAction U actionText
        let priority ← parsePriority priorityText
        let rule ← AclRule.new T (trim id) (trim name) (trim cidr) action priority
        return some rule
    | _ => .ok none

/-- Rules are added line by line until one is refused. -/
def loadLines (m : AclManager N) (count : UInt32) : List (List Char) → Except Error UInt32 × AclManager N
  | [] => (.ok count, m)
  | line :: rest =>
      match readLine U T line with
      | .error e => (.error e, m)
      | .ok none => loadLines m count rest
      | .ok (some rule) => loadLines (addRule m rule) (count + 1) rest

def loadFromText (m : AclManager N) (text : List Char) : Except Error UInt32 × AclManager N :=
  loadLines U T m 0 (lines text)

def exportLine (rule : AclRule N) : List Char :=
  rule.id ++ '|' :: rule.name ++ '|' :: T.text rule.cidr ++ '|' :: showAction rule.action ++ '|' :: showInt rule.priority

/-- The rules come in the order in which the hash map yields them. -/
def exportToText (values : List (AclRule N)) : List Char :=
  ['\n'].intercalate ((values.mergeSort before).map (exportLine T))

end

/-- The id and the name of a rule survive on a line. -/
structure Plain {N : Networks} (rule : AclRule N) : Prop where
  id_bar : '|' ∉ rule.id
  id_lf : '\n' ∉ rule.id
  id_trim : trim rule.id = rule.id
  id_hash : ¬['#'] <+: rule.id
  name_bar : '|' ∉ rule.name
  name_lf : '\n' ∉ rule.name

/-- What a line keeps of a rule. -/
def asRead {N : Networks} (rule : AclRule N) : AclRule N :=
  { rule with name := trim rule.name, direction := .both, enabled := true, comment := none }

section Lines

variable {U : Lowering} {N : Networks} {T : NetworkTexts N} {rule : AclRule N}

theorem isWord_showAction (action : AclAction) : IsWord (showAction action) := by
  cases action <;> exact ⟨by decide, not_blank_of_all (by decide)⟩

theorem bar_not_mem_showAction (action : AclAction) : '|' ∉ showAction action := by
  cases action <;> decide

theorem parseAction_showAction (action : AclAction) : parseAction U (showAction action) = .ok action := by
  cases action <;> rfl

/-- Without an id in front a line begins with a bar. -/
theorem head_exportLine (T : NetworkTexts N) (h : Plain rule) {c : Char} (hc : (exportLine T rule).head? = some c) :
    isWhiteSpace c = false ∧ c ≠ '#' := by
  cases hid : rule.id with
  | nil =>
      rw [exportLine, hid] at hc
      cases hc
      decide
  | cons d rest =>
      rw [exportLine, hid] at hc
      cases hc
      constructor
      · have htrim : trimStart rule.id = rule.id := by rw [← h.id_trim, trimStart_trim]
        by_contra hblank
        rw [hid, trimStart, List.dropWhile_cons_of_pos (by simpa using hblank)] at htrim
        have hlength := congrArg List.length htrim
        have hle := (List.dropWhile_suffix isWhiteSpace (l := rest)).length_le
        rw [List.length_cons] at hlength
        omega
      · rintro rfl
        exact h.id_hash (hid ▸ ⟨rest, rfl⟩)

theorem last_exportLine (T : NetworkTexts N) {c : Char} (hc : (exportLine T rule).getLast? = some c) :
    isWhiteSpace c = false := by
  have hword := isWord_showInt rule.priority
  rw [exportLine, List.getLast?_append_of_ne_nil _ (List.cons_ne_nil _ _), List.getLast?_cons_of_ne_nil hword.1] at hc
  exact hword.2 c (List.mem_of_getLast? hc)

theorem trim_exportLine (T : NetworkTexts N) (h : Plain rule) : trim (exportLine T rule) = exportLine T rule :=
  trim_eq_self (fun _ hc => (head_exportLine T h hc).1) fun _ hc => last_exportLine T hc

theorem line_exportLine (T : NetworkTexts N) (h : Plain rule) :
    exportLine T rule ≠ [] ∧ '\n' ∉ exportLine T rule ∧ ¬['\r'] <:+ exportLine T rule := by
  refine ⟨?_, ?_, ?_⟩
  · rw [exportLine]
    exact List.append_ne_nil_of_right_ne_nil _ (List.cons_ne_nil _ _)
  · have hnet := (T.isWord_text rule.cidr).not_lf
    have haction := (isWord_showAction rule.action).not_lf
    have hpriority := (isWord_showInt rule.priority).not_lf
    simp [exportLine, h.id_lf, h.name_lf, hnet, haction, hpriority]
  · rintro ⟨front, hfront⟩
    have hlast : (exportLine T rule).getLast? = some '\r' := by
      rw [← hfront]
      exact List.getLast?_concat ..
    cases last_exportLine T hlast

theorem splitN_exportLine (T : NetworkTexts N) (h : Plain rule) : splitN '|' 5 (exportLine T rule) =
    [rule.id, rule.name, T.text rule.cidr, showAction rule.action, showInt rule.priority] := by
  have hline : exportLine T rule = rule.id ++ '|' :: (rule.name ++ '|' :: (T.text rule.cidr ++
      '|' :: (showAction rule.action ++ '|' :: showInt rule.priority))) := by
    simp [exportLine]
  rw [hline, splitN, splitOnce_append h.id_bar]
  simp only [splitN, splitOnce_append h.name_bar, splitOnce_append (T.no_bar rule.cidr),
    splitOnce_append (bar_not_mem_showAction rule.action)]

theorem readLine_exportLine (h : Plain rule) : readLine U T (exportLine T rule) = .ok (some (asRead rule)) := by
  have hcomment : ¬(exportLine T rule = [] ∨ ['#'] <+: exportLine T rule) := by
    rintro (hnil | ⟨rest, hrest⟩)
    · exact (line_exportLine T h).1 hnil
    · exact (head_exportLine T h (hrest ▸ rfl)).2 rfl
  have hpriority : parsePriority (showInt rule.priority) = .ok rule.priority := by
    rw [parsePriority, trim_of_isWord (isWord_showInt rule.priority), parseI32_showInt]
  have hrule : AclRule.new T (trim rule.id) (trim rule.name) (trim (T.text rule.cidr)) rule.action rule.priority =
      .ok (asRead rule) := by
    rw [AclRule.new, trim_of_isWord (T.isWord_text rule.cidr), parseCidr, T.parse_text, h.id_trim]
    rfl
  rw [readLine, trim_exportLine T h, if_neg hcomment, splitN_exportLine T h]
  simp only [parseAction_showAction, hpriority]
  change (AclRule.new T (trim rule.id) (trim rule.name) (trim (T.text rule.cidr)) rule.action rule.priority >>=
    fun rule => pure (some rule)) = _
  rw [hrule]
  rfl

end Lines

section Loading

variable {U : Lowering} {N : Networks} {T : NetworkTexts N} {m : AclManager N}

/-- The rules on the lines before the first one that is refused. -/
def rulesRead (U : Lowering) (T : NetworkTexts N) : List (List Char) → List (AclRule N)
  | [] => []
  | line :: rest =>
      match readLine U T line with
      | .error _ => []
      | .ok none => rulesRead U T rest
      | .ok (some rule) => rule :: rulesRead U T rest

theorem loadLines_rules (m : AclManager N) (count : UInt32) (ls : List (List Char)) :
    (loadLines U T m count ls).2 = (rulesRead U T ls).foldl addRule m := by
  induction ls generalizing m count with
  | nil => rfl
  | cons line rest ih =>
      rw [loadLines, rulesRead]
      cases readLine U T line with
      | error e => rfl
      | ok found =>
          cases found with
          | none => exact ih m count
          | some rule => exact ih (addRule m rule) (count + 1)

theorem loadLines_exported {rules : List (AclRule N)} (h : ∀ rule ∈ rules, Plain rule) (m : AclManager N)
    (count : UInt32) : ∃ n, loadLines U T m count (rules.map (exportLine T)) =
      (.ok n, (rules.map asRead).foldl addRule m) := by
  induction rules generalizing m count with
  | nil => exact ⟨count, rfl⟩
  | cons rule rules ih =>
      rw [List.map_cons, loadLines, readLine_exportLine (h rule List.mem_cons_self)]
      exact ih (fun r hr => h r (List.mem_cons_of_mem _ hr)) (addRule m (asRead rule)) (count + 1)

theorem foldl_addRule (rules : List (AclRule N)) (m : AclManager N) : rules.foldl addRule m =
    { m with rules := rules.foldl (fun t rule => t.insert rule.id rule) m.rules } := by
  induction rules generalizing m with
  | nil => rfl
  | cons rule rules ih => exact ih (addRule m rule)

/-- Of several rules of one id the last one is kept. -/
theorem lookup_foldl_addRule (rules : List (AclRule N)) (m : AclManager N) (id : List Char) :
    (rules.foldl addRule m).rules.lookup id = (rules.reverse.find? (·.id = id)).or (m.rules.lookup id) := by
  induction rules using List.reverseRecOn with
  | nil => rfl
  | append_singleton rules rule ih =>
      rw [List.foldl_concat, addRule, lookup_insert_eq, List.reverse_concat]
      by_cases hid : rule.id = id
      · rw [List.find?_cons_of_pos (by simpa using hid), if_pos hid.symm, Option.some_or]
      · rw [List.find?_cons_of_neg (by simpa using hid), if_neg (Ne.symm hid), ih]

/-- Every rule is filed under its own id. -/
def Keyed (m : AclManager N) : Prop := ∀ id rule, m.rules.lookup id = some rule → rule.id = id

theorem Keyed.addRule (h : Keyed m) (rule : AclRule N) : Keyed (addRule m rule) := by
  intro id r hr
  rw [AclText.addRule, lookup_insert_eq] at hr
  split at hr
  next hid =>
    cases hr
    exact hid.symm
  next => exact h id r hr

theorem Keyed.nodup (h : Keyed m) : (m.values.map (·.id)).Nodup := by
  have hkeys : m.values.map (·.id) = m.rules.keys := by
    rw [AclManager.values, List.map_map]
    refine List.map_congr_left fun e he => ?_
    exact h e.1 e.2 (AList.mem_lookup_iff.mpr he)
  rw [hkeys]
  exact m.rules.nodupKeys

/-- Nothing is lost by writing the rules down: they are whole on their lines, and
no two that tie disagree. -/
structure Portable (m : AclManager N) : Prop where
  plain : ∀ rule ∈ m.values, Plain rule
  enabled : ∀ rule ∈ m.values, rule.enabled = true
  both : ∀ rule ∈ m.values, rule.direction = .both
  agreed : ∀ ip dir, Agreed m.values ip dir

def emptyOf (m : AclManager N) : AclManager N := ⟨m.defaultAction, ∅⟩

/-- A manager that loads what was exported says the same of every address. -/
def Restores (U : Lowering) (T : NetworkTexts N) (m : AclManager N) : Prop :=
  ∀ values, values.Perm m.values →
    ∃ n loaded, loadFromText U T (emptyOf m) (exportToText T values) = (.ok n, loaded) ∧
      ∀ v v', v.Perm m.values → v'.Perm loaded.values → ∀ ip dir,
        (m.check v ip dir).isAllowed = (loaded.check v' ip dir).isAllowed

def SameRules (m m' : AclManager N) : Prop := ∀ id, m.rules.lookup id = m'.rules.lookup id

variable {rule : AclRule N} {ip : IpAddr} {dir : Direction}

theorem concerns_asRead (h : Portable m) (hrule : rule ∈ m.values) :
    (asRead rule).concerns ip dir ↔ rule.concerns ip dir := by
  have henabled := h.enabled rule hrule
  have hboth := h.both rule hrule
  simp [AclRule.concerns, AclRule.appliesTo, AclRule.matches_, asRead, henabled, hboth]

theorem wins_asRead (h : Portable m) (hrule : rule ∈ m.values)
    (hwins : Wins (m.values.map asRead) ip dir (asRead rule)) : Wins m.values ip dir rule := by
  refine ⟨hrule, (concerns_asRead h hrule).mp hwins.concerns, fun r hr hconcerns => ?_⟩
  exact hwins.top (asRead r) (List.mem_map_of_mem hr) ((concerns_asRead h hr).mpr hconcerns)

/-- The verdicts of two managers of which one has the rules as the other's are read. -/
theorem check_asRead (h : Portable m) {m' : AclManager N} (hvalues : m'.values.Perm (m.values.map asRead))
    (hdefault : m'.defaultAction = m.defaultAction) {v v' : List (AclRule N)} (hv : v.Perm m.values)
    (hv' : v'.Perm m'.values) : (m.check v ip dir).isAllowed = (m'.check v' ip dir).isAllowed := by
  rcases check_cases hv ip dir with ⟨rule, hwins, hcheck⟩ | ⟨hnone, hcheck⟩
  · rcases check_cases hv' ip dir with ⟨r', hwins', hcheck'⟩ | ⟨hnone', -⟩
    · have hread := hwins'.perm hvalues
      obtain ⟨r, hr, rfl⟩ := List.mem_map.mp hread.mem
      have hdeny := h.agreed ip dir rule r hwins (wins_asRead h hr hread)
      rw [hcheck, hcheck', Bool.eq_iff_iff, isAllowed_outcome, isAllowed_outcome]
      exact not_congr hdeny
    · have hmem : asRead rule ∈ m'.values := hvalues.mem_iff.mpr (List.mem_map_of_mem hwins.mem)
      exact absurd ((concerns_asRead h hwins.mem).mpr hwins.concerns) (hnone' _ hmem)
  · rcases check_cases hv' ip dir with ⟨r', hwins', -⟩ | ⟨-, hcheck'⟩
    · have hread := hwins'.perm hvalues
      obtain ⟨r, hr, rfl⟩ := List.mem_map.mp hread.mem
      exact absurd ((concerns_asRead h hr).mp hread.concerns) (hnone r hr)
    · rw [hcheck, hcheck', AclManager.allowsByDefault, AclManager.allowsByDefault, hdefault]

theorem restores_of_portable (hkeyed : Keyed m) (h : Portable m) : Restores U T m := by
  intro values hvalues
  have hsorted : (values.mergeSort before).Perm m.values := (List.mergeSort_perm values before).trans hvalues
  have hplain : ∀ rule ∈ values.mergeSort before, Plain rule := fun rule hr => h.plain rule (hsorted.mem_iff.mp hr)
  have hlines : lines (exportToText T values) = (values.mergeSort before).map (exportLine T) := by
    refine lines_intercalate fun line hline => ?_
    obtain ⟨rule, hrule, rfl⟩ := List.mem_map.mp hline
    exact line_exportLine T (hplain rule hrule)
  obtain ⟨n, hload⟩ := loadLines_exported (U := U) (T := T) hplain (emptyOf m) 0
  have hids : (((values.mergeSort before).map asRead).map (·.id)).Nodup := by
    rw [List.map_map]
    exact (hsorted.map _).nodup_iff.mpr hkeyed.nodup
  have hloaded : (((values.mergeSort before).map asRead).foldl addRule (emptyOf m)).values.Perm (m.values.map asRead) := by
    rw [foldl_addRule]
    exact (values_replaceRules (emptyOf m) hids).trans (hsorted.map asRead)
  refine ⟨n, _, ?_, fun v v' hv hv' ip dir => check_asRead h hloaded ?_ hv hv'⟩
  · rw [loadFromText, hlines, hload]
  · rw [foldl_addRule]
    rfl

/-- A text that is refused changes nothing. -/
def Unchanged (U : Lowering) (T : NetworkTexts N) (m : AclManager N) (text : List Char) : Prop :=
  (∃ e, (loadFromText U T m text).1 = .error e) → SameRules m (loadFromText U T m text).2

/-- What is added before a line is refused is there already. -/
def Harmless (U : Lowering) (T : NetworkTexts N) (m : AclManager N) (text : List Char) : Prop :=
  (∃ e, (loadFromText U T m text).1 = .error e) → ∀ id rule,
    (rulesRead U T (lines text)).reverse.find? (·.id = id) = some rule → m.rules.lookup id = some rule

theorem unchanged_iff (m : AclManager N) (text : List Char) : Unchanged U T m text ↔ Harmless U T m text := by
  refine imp_congr_right fun _ => forall_congr' fun id => ?_
  rw [loadFromText, loadLines_rules, lookup_foldl_addRule]
  cases hfind : (rulesRead U T (lines text)).reverse.find? (·.id = id) with
  | none => simp
  | some rule => simp

/-- Portable rules survive the way through a text, and a text that is refused keeps
the rules just when it is harmless. -/
theorem text_keeps_rules (U : Lowering) (T : NetworkTexts N) (m : AclManager N) (hkeyed : Keyed m) :
    (Portable m → Restores U T m) ∧ ∀ text, Unchanged U T m text ↔ Harmless U T m text :=
  ⟨restores_of_portable hkeyed, unchanged_iff m⟩

end Loading

theorem isWord_allV4 : IsWord "0.0.0.0/0".toList := ⟨by decide, not_blank_of_all (by decide)⟩

theorem no_bar_allV4 : '|' ∉ "0.0.0.0/0".toList := by decide

def allV4Texts : NetworkTexts allV4 where
  text _ := "0.0.0.0/0".toList
  complaint _ := "invalid address".toList
  parse_text _ := rfl
  isWord_text _ := isWord_allV4
  no_bar _ := no_bar_allV4

def denial (direction : Direction) : AclRule allV4 := ⟨['a'], ['a'], (), .deny, 0, direction, true, none⟩

def oneRule (direction : Direction) : AclManager allV4 := addRule .newPermissive (denial direction)

theorem keyed_oneRule (direction : Direction) : Keyed (oneRule direction) := by
  refine Keyed.addRule (fun id rule h => ?_) _
  rw [AclManager.newPermissive, AList.lookup_empty] at h
  cases h

theorem plain_denial (direction : Direction) : Plain (denial direction) := by
  cases direction <;> exact ⟨by decide, by decide, by decide, by decide, by decide, by decide⟩

theorem text_keeps_rules_oneRule : Restores asciiOnly allV4Texts (oneRule .both) := by
  refine (text_keeps_rules asciiOnly allV4Texts (oneRule .both) (keyed_oneRule .both)).1 ⟨?_, ?_, ?_, ?_⟩
  · intro rule hrule
    obtain rfl := List.mem_singleton.mp hrule
    exact plain_denial .both
  · intro rule hrule
    obtain rfl := List.mem_singleton.mp hrule
    rfl
  · intro rule hrule
    obtain rfl := List.mem_singleton.mp hrule
    rfl
  · intro ip dir rule rule' h h'
    obtain rfl := List.mem_singleton.mp h.mem
    obtain rfl := List.mem_singleton.mp h'.mem
    rfl

/-- The second line has no network. -/
def refusedText : List Char := "a|a|0.0.0.0/0|deny|1\nb|b|0.0.0.0/x|deny|1".toList

/-- A rule for one direction comes back for both, and a rule that stands before a
refused line stays. -/
theorem text_changes_rules :
    ¬Restores asciiOnly allV4Texts (oneRule .inbound) ∧ ¬Unchanged asciiOnly allV4Texts .newPermissive refusedText := by
  constructor
  · intro h
    obtain ⟨n, loaded, hload, hsame⟩ := h [denial .inbound] (.refl _)
    have hread : loadFromText asciiOnly allV4Texts (emptyOf (oneRule .inbound)) (exportToText allV4Texts [denial .inbound]) =
        (.ok 1, oneRule .both) := by
      rw [exportToText, List.mergeSort_singleton]
      rfl
    rw [hread] at hload
    obtain rfl := (Prod.mk.inj hload).2
    have hverdict := hsame [denial .inbound] [denial .both] (.refl _) (.refl _) someHost .outbound
    have hbefore : (oneRule .inbound).check [denial .inbound] someHost .outbound = .default true :=
      check_uncovered (by simp [AclRule.concerns, AclRule.appliesTo, denial]) (.refl _)
    have hafter : (oneRule .both).check [denial .both] someHost .outbound = .denied ['a'] ['a'] := by
      rw [AclManager.check, List.filter_cons_of_pos rfl, List.filter_nil, List.mergeSort_singleton]
      rfl
    rw [hbefore, hafter] at hverdict
    cases hverdict
  · intro h
    have hkept := h ⟨_, rfl⟩ ['a']
    cases hkept

end NixiSbc.AclText
