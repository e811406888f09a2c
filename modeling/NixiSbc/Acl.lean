import NixiSbc.KeyedTable
import NixiSbc.NetAddr

namespace NixiSbc.Acl

open KeyedTable NetAddr

inductive AclAction
  | allow
  | deny
  | log
  deriving DecidableEq

inductive Direction
  | inbound
  | outbound
  | both
  deriving DecidableEq

/-- The networks of rules stay abstract. -/
structure Networks where
  Net : Type
  parse : List Char → Option Net
  contains : Net → IpAddr → Bool

structure AclRule (N : Networks) where
  id : List Char
  name : List Char
  cidr : N.Net
  action : AclAction
  priority : Int32
  direction : Direction
  enabled : Bool
  comment : Option (List Char)

inductive AclResult
  | allowed (ruleId : Option (List Char))
  | denied (ruleId reason : List Char)
  | logged (ruleId : List Char)
  | default (allowed : Bool)
  deriving DecidableEq

def AclResult.isAllowed : AclResult → Bool
  | .allowed _ | .logged _ => true
  | .denied _ _ => false
  | .default permitted => permitted

structure AclManager (N : Networks) where
  defaultAction : AclAction
  rules : Table (List Char) (AclRule N)

variable {N : Networks}

def AclManager.newPermissive : AclManager N := ⟨.allow, ∅⟩

def AclRule.matches_ (rule : AclRule N) (ip : IpAddr) : Bool := rule.enabled ∧ N.contains rule.cidr ip

def AclRule.appliesTo (rule : AclRule N) (dir : Direction) : Bool :=
  rule.direction = .both ∨ rule.direction = dir

def AclRule.outcome (rule : AclRule N) : AclResult :=
  match rule.action with
  | .allow => .allowed (some rule.id)
  | .deny => .denied rule.id (rule.comment.getD rule.name)
  | .log => .logged rule.id

def AclManager.values (m : AclManager N) : List (AclRule N) := m.rules.entries.map (·.2)

/-- Higher priorities first. -/
def before (r r' : AclRule N) : Bool := r'.priority.toInt ≤ r.priority.toInt

/-- The rules come in the order in which the hash map yields them; the sort keeps
it among equal priorities. -/
def AclManager.check (m : AclManager N) (values : List (AclRule N)) (ip : IpAddr) (dir : Direction) : AclResult :=
  match ((values.filter (·.appliesTo dir)).mergeSort before).find? (·.matches_ ip) with
  | some rule => rule.outcome
  | none => .default (m.defaultAction ≠ .deny)

def AclManager.replaceRules (m : AclManager N) (rules : List (AclRule N)) : AclManager N :=
  { m with rules := rules.foldl (fun t r => t.insert r.id r) ∅ }

def AclManager.setDefaultAction (m : AclManager N) (action : AclAction) : AclManager N :=
  { m with defaultAction := action }

theorem values_replaceRules (m : AclManager N) {rules : List (AclRule N)}
    (h : (rules.map (·.id)).Nodup) : (m.replaceRules rules).values.Perm rules := by
  have hentries := entries_foldl_insert AclRule.id (fun rule => rule) h
  rw [AclManager.values, AclManager.replaceRules, hentries]
  simp [Function.comp_def]

/-- The rule is for this address and direction. -/
def AclRule.concerns (rule : AclRule N) (ip : IpAddr) (dir : Direction) : Prop :=
  rule.appliesTo dir = true ∧ rule.matches_ ip = true

/-- The rule is among the highest of those that concern an address. -/
structure Wins (rules : List (AclRule N)) (ip : IpAddr) (dir : Direction) (rule : AclRule N) : Prop where
  mem : rule ∈ rules
  concerns : rule.concerns ip dir
  top : ∀ r ∈ rules, r.concerns ip dir → r.priority.toInt ≤ rule.priority.toInt

section Order

variable {values values' : List (AclRule N)} {ip : IpAddr} {dir : Direction} {rule : AclRule N}

theorem before_trans (a b c : AclRule N) : before a b → before b c → before a c := by
  simp only [before, decide_eq_true_eq]
  omega

theorem before_total (a b : AclRule N) : before a b || before b a := by
  simp only [before, Bool.or_eq_true, decide_eq_true_eq]
  omega

theorem Wins.perm (h : Wins values ip dir rule) (hperm : values.Perm values') : Wins values' ip dir rule :=
  ⟨hperm.mem_iff.mp h.mem, h.concerns, fun r hr => h.top r (hperm.mem_iff.mpr hr)⟩

/-- Sorted, the list of the rules of a direction is found through to the best. -/
theorem wins_of_find (h : ((values.filter (·.appliesTo dir)).mergeSort before).find? (·.matches_ ip) = some rule) :
    Wins values ip dir rule := by
  obtain ⟨hmatches, earlier, later, hsorted, hnone⟩ := List.find?_eq_some_iff_append.mp h
  have hmem (r : AclRule N) : r ∈ earlier ++ rule :: later ↔ r ∈ values ∧ r.appliesTo dir = true := by
    rw [← hsorted, List.mem_mergeSort, List.mem_filter]
  have hrule := (hmem rule).mp (by simp)
  refine ⟨hrule.1, ⟨hrule.2, hmatches⟩, fun r hr hconcerns => ?_⟩
  rcases List.mem_append.mp ((hmem r).mpr ⟨hr, hconcerns.1⟩) with hin | hin
  · exact absurd hconcerns.2 (by simpa using hnone r hin)
  · rcases List.mem_cons.mp hin with rfl | hin
    · exact le_rfl
    · have hpairwise := List.pairwise_mergeSort before_trans before_total (values.filter (·.appliesTo dir))
      rw [hsorted, List.pairwise_append, List.pairwise_cons] at hpairwise
      exact of_decide_eq_true (hpairwise.2.1.1 r hin)

/-- A winner that comes first in the hash map is found. -/
theorem find_of_wins (h : Wins (rule :: values) ip dir rule) :
    (((rule :: values).filter (·.appliesTo dir)).mergeSort before).find? (·.matches_ ip) = some rule := by
  have hfilter : (rule :: values).filter (·.appliesTo dir) = rule :: values.filter (·.appliesTo dir) :=
    List.filter_cons_of_pos h.concerns.1
  rw [hfilter]
  obtain ⟨earlier, later, hsorted, hrest, hbefore⟩ :=
    List.mergeSort_cons before_trans before_total rule (values.filter (·.appliesTo dir))
  rw [hsorted, List.find?_append]
  have hnone : earlier.find? (·.matches_ ip) = none := by
    rw [List.find?_eq_none]
    intro r hr hmatches
    have hin : r ∈ values.filter (·.appliesTo dir) := by
      apply (List.mergeSort_perm _ before).mem_iff.mp
      rw [hrest]
      exact List.mem_append_left _ hr
    obtain ⟨hvalue, happlies⟩ := List.mem_filter.mp hin
    have htop := h.top r (List.mem_cons_of_mem _ hvalue) ⟨happlies, hmatches⟩
    have hless := hbefore r hr
    simp only [before, Bool.not_eq_true', decide_eq_false_iff_not] at hless
    exact hless htop
  rw [hnone, Option.none_or]
  exact List.find?_cons_of_pos h.concerns.2

theorem find_eq_none :
    ((values.filter (·.appliesTo dir)).mergeSort before).find? (·.matches_ ip) = none ↔
      ∀ r ∈ values, ¬r.concerns ip dir := by
  simp only [List.find?_eq_none, List.mem_mergeSort, List.mem_filter, AclRule.concerns, and_imp, not_and]

/-- What a rule says names the rule. -/
theorem outcome_id {rule' : AclRule N} (h : rule.outcome = rule'.outcome) : rule.id = rule'.id := by
  unfold AclRule.outcome at h
  cases hact : rule.action <;> cases hact' : rule'.action <;> simp_all

theorem outcome_ne_default (allowed : Bool) : rule.outcome ≠ .default allowed := by
  unfold AclRule.outcome
  cases rule.action <;> simp

/-- Whatever the order of the two hash maps, they say the same of every address. -/
def SameVerdicts (m m' : AclManager N) : Prop :=
  ∀ values values', values.Perm m.values → values'.Perm m'.values → ∀ ip dir,
    m.check values ip dir = m'.check values' ip dir

/-- Of the rules that concern an address, one is higher than all others. -/
def Unambiguous (rules : List (AclRule N)) : Prop :=
  ∀ ip dir r r', Wins rules ip dir r → Wins rules ip dir r' → r = r'

/-- Every address is the concern of some rule. -/
def Covering (rules : List (AclRule N)) : Prop := ∀ ip dir, ∃ r ∈ rules, r.concerns ip dir

def AclManager.allowsByDefault (m : AclManager N) : Bool := m.defaultAction ≠ .deny

theorem check_of_wins {m : AclManager N} (hunambiguous : Unambiguous values) (hwins : Wins values ip dir rule)
    (hperm : values'.Perm values) : m.check values' ip dir = rule.outcome := by
  unfold AclManager.check
  split
  next r hfind => rw [hunambiguous ip dir r rule ((wins_of_find hfind).perm hperm) hwins]
  next hnone => exact absurd hwins.concerns (find_eq_none.mp hnone rule (hperm.mem_iff.mpr hwins.mem))

theorem check_uncovered {m : AclManager N} (h : ∀ r ∈ values, ¬r.concerns ip dir) (hperm : values'.Perm values) :
    m.check values' ip dir = .default m.allowsByDefault := by
  have hnone := find_eq_none.mpr fun r hr => h r (hperm.mem_iff.mp hr)
  simp only [AclManager.check, hnone, AclManager.allowsByDefault]

theorem exists_wins {r : AclRule N} (hr : r ∈ values) (hconcerns : r.concerns ip dir) :
    ∃ rule, Wins values ip dir rule := by
  cases hfind : ((values.filter (·.appliesTo dir)).mergeSort before).find? (·.matches_ ip) with
  | none => exact absurd hconcerns (find_eq_none.mp hfind r hr)
  | some rule => exact ⟨rule, wins_of_find hfind⟩

/-- The hash map may yield any winner first. -/
theorem exists_order (m : AclManager N) (hvalues : m.values.Perm values) (hwins : Wins values ip dir rule) :
    ∃ v, v.Perm m.values ∧ m.check v ip dir = rule.outcome := by
  obtain ⟨earlier, later, hsplit⟩ := List.append_of_mem hwins.mem
  have hperm : (rule :: (earlier ++ later)).Perm values := hsplit ▸ List.perm_middle.symm
  refine ⟨rule :: (earlier ++ later), hperm.trans hvalues.symm, ?_⟩
  simp only [AclManager.check, find_of_wins (hwins.perm hperm.symm)]

/-- Two managers with the same rules say the same just when no two rules tie for
an address and the default is the same wherever it is asked. -/
theorem sameVerdicts_iff {m m' : AclManager N} (hvalues : m.values.Perm values) (hvalues' : m'.values.Perm values)
    (hids : ∀ r ∈ values, ∀ r' ∈ values, r.id = r'.id → r = r') :
    SameVerdicts m m' ↔
      Unambiguous values ∧ (m.allowsByDefault = m'.allowsByDefault ∨ Covering values) := by
  constructor
  · intro hsame
    constructor
    · intro ip dir r r' hwins hwins'
      obtain ⟨v, hv, hcheck⟩ := exists_order m hvalues hwins
      obtain ⟨v', hv', hcheck'⟩ := exists_order m' hvalues' hwins'
      have houtcome := hsame v v' hv hv' ip dir
      rw [hcheck, hcheck'] at houtcome
      exact hids r hwins.mem r' hwins'.mem (outcome_id houtcome)
    · by_contra hneither
      obtain ⟨hdefault, hcovering⟩ := not_or.mp hneither
      simp only [Covering, not_forall, not_exists, not_and] at hcovering
      obtain ⟨ip, dir, hnone⟩ := hcovering
      have hverdict := hsame m.values m'.values (.refl _) (.refl _) ip dir
      rw [check_uncovered hnone hvalues, check_uncovered hnone hvalues'] at hverdict
      exact hdefault (AclResult.default.inj hverdict)
  · rintro ⟨hunambiguous, hdefault⟩ v v' hv hv' ip dir
    by_cases hcovered : ∃ r ∈ values, r.concerns ip dir
    · obtain ⟨r, hr, hconcerns⟩ := hcovered
      obtain ⟨rule, hwins⟩ := exists_wins hr hconcerns
      rw [check_of_wins hunambiguous hwins (hv.trans hvalues), check_of_wins hunambiguous hwins (hv'.trans hvalues')]
    · have hnone : ∀ r ∈ values, ¬r.concerns ip dir := fun r hr hc => hcovered ⟨r, hr, hc⟩
      rw [check_uncovered hnone (hv.trans hvalues), check_uncovered hnone (hv'.trans hvalues')]
      rcases hdefault with hdefault | hcovering
      · rw [hdefault]
      · exact absurd (hcovering ip dir) hcovered

theorem check_cases {m : AclManager N} (hperm : values.Perm m.values) (ip : IpAddr) (dir : Direction) :
    (∃ rule, Wins m.values ip dir rule ∧ m.check values ip dir = rule.outcome) ∨
      ((∀ r ∈ m.values, ¬r.concerns ip dir) ∧ m.check values ip dir = .default m.allowsByDefault) := by
  cases hfind : ((values.filter (·.appliesTo dir)).mergeSort before).find? (·.matches_ ip) with
  | some rule =>
      refine .inl ⟨rule, (wins_of_find hfind).perm hperm, ?_⟩
      simp only [AclManager.check, hfind]
  | none =>
      have hnone := find_eq_none.mp hfind
      exact .inr ⟨fun r hr => hnone r (hperm.mem_iff.mpr hr), check_uncovered hnone (.refl _)⟩

/-- What the rules alone say of an address: of the highest that concern it, one
that denies is enough. -/
structure AclManager.Permits (m : AclManager N) (ip : IpAddr) (dir : Direction) : Prop where
  undenied : ∀ rule, Wins m.values ip dir rule → rule.action ≠ .deny
  default : (∀ r ∈ m.values, ¬r.concerns ip dir) → m.allowsByDefault = true

/-- The highest rules that concern an address agree on whether to deny it. -/
def Agreed (rules : List (AclRule N)) (ip : IpAddr) (dir : Direction) : Prop :=
  ∀ rule rule', Wins rules ip dir rule → Wins rules ip dir rule' → (rule.action = .deny ↔ rule'.action = .deny)

theorem isAllowed_outcome : rule.outcome.isAllowed = true ↔ rule.action ≠ .deny := by
  unfold AclRule.outcome
  cases rule.action <;> simp [AclResult.isAllowed]

/-- The verdict depends on the rules alone just when the highest of them agree. -/
theorem check_of_rules_iff (m : AclManager N) (ip : IpAddr) (dir : Direction) :
    (∀ values, values.Perm m.values → ((m.check values ip dir).isAllowed = true ↔ m.Permits ip dir)) ↔
      Agreed m.values ip dir := by
  constructor
  · intro hall rule rule' hwins hwins'
    have himp (r r' : AclRule N) (hr : Wins m.values ip dir r) (hr' : Wins m.values ip dir r')
        (hdeny : r.action = .deny) : r'.action = .deny := by
      obtain ⟨v, hv, hcheck⟩ := exists_order m (.refl _) hr'
      by_contra hallow
      have hpermits : m.Permits ip dir := by
        rw [← hall v hv, hcheck]
        exact isAllowed_outcome.mpr hallow
      exact hpermits.undenied r hr hdeny
    exact ⟨himp rule rule' hwins hwins', himp rule' rule hwins' hwins⟩
  · intro hagreed values hperm
    rcases check_cases hperm ip dir with ⟨rule, hwins, hcheck⟩ | ⟨hnone, hcheck⟩
    · rw [hcheck, isAllowed_outcome]
      constructor
      · intro hallow
        refine ⟨fun r hr hdeny => hallow ((hagreed r rule hr hwins).mp hdeny), fun hnone => ?_⟩
        exact absurd hwins.concerns (hnone rule hwins.mem)
      · exact fun hpermits => hpermits.undenied rule hwins
    · rw [hcheck]
      constructor
      · intro hdefault
        exact ⟨fun r hr => absurd hr.concerns (hnone r hr.mem), fun _ => hdefault⟩
      · exact fun hpermits => hpermits.default hnone

end Order

/-- The only network is that of all IPv4 addresses. -/
def allV4 : Networks where
  Net := Unit
  parse text := if text = "0.0.0.0/0".toList then some () else none
  contains _ ip :=
    match ip with
    | .v4 _ => true
    | .v6 _ => false

def allV4Rule (id : List Char) (action : AclAction) : AclRule allV4 := ⟨id, id, (), action, 0, .both, true, none⟩

/-- One rule allows what another of its priority denies. -/
def tied : AclManager allV4 :=
  AclManager.newPermissive.replaceRules [allV4Rule ['a'] .allow, allV4Rule ['d'] .deny]

theorem values_tied : tied.values = [allV4Rule ['d'] .deny, allV4Rule ['a'] .allow] := rfl

def someHost : IpAddr := .v4 ⟨#[192, 0, 2, 1], rfl⟩

theorem mem_tied {rule : AclRule allV4} (h : rule ∈ tied.values) :
    rule.concerns someHost .inbound ∧ rule.priority = 0 := by
  rw [values_tied] at h
  rcases List.mem_pair.mp h with rfl | rfl
  · exact ⟨⟨rfl, rfl⟩, rfl⟩
  · exact ⟨⟨rfl, rfl⟩, rfl⟩

theorem wins_tied {rule : AclRule allV4} (h : rule ∈ tied.values) : Wins tied.values someHost .inbound rule := by
  refine ⟨h, (mem_tied h).1, fun r hr _ => ?_⟩
  rw [(mem_tied hr).2, (mem_tied h).2]

theorem tie_follows_iteration :
    ¬∀ values, values.Perm tied.values →
      ((tied.check values someHost .inbound).isAllowed = true ↔ tied.Permits someHost .inbound) := by
  intro hall
  have hdeny : allV4Rule ['d'] .deny ∈ tied.values := List.mem_cons_self
  have hallow : allV4Rule ['a'] .allow ∈ tied.values := List.mem_cons_of_mem _ List.mem_cons_self
  obtain ⟨values, hperm, hcheck⟩ := exists_order tied (.refl _) (wins_tied hallow)
  have hpermits : tied.Permits someHost .inbound := by
    rw [← hall values hperm, hcheck]
    rfl
  exact hpermits.undenied _ (wins_tied hdeny) rfl

end NixiSbc.Acl
