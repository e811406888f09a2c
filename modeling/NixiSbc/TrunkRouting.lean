import NixiSbc.Hydration
import NixiSbc.InviteRetries
import NixiSbc.TrunkConvergence

namespace NixiSbc.TrunkRouting

open Hydration Selection
open Trunks (TrunkId TrunkState)
open InviteRetries (unavailable)

inductive Error
  | routing (text : List Char)
  deriving DecidableEq

/-- The trunks in the order in which they are listed, and their states at one time. -/
structure Router where
  trunks : List TrunkConfig
  state : TrunkId → Option TrunkState
  now : Nat
  distinct : (trunks.map (·.id)).Nodup

/-- Host with port, and the user part or nothing. -/
structure Uri where
  domain : List Char
  user : List Char

def matchesPrefix (t : TrunkConfig) (number : List Char) : Bool :=
  t.prefixPatterns = [] ∨ t.prefixPatterns.any (· <+: number)

/-- The order of priority and then of cost. -/
def cheaper (t t' : TrunkConfig) : Bool :=
  t.priority < t'.priority ∨ t.priority = t'.priority ∧ t.costPerMinute ≤ t'.costPerMinute

def canAcceptCall (s : TrunkState) (now : Nat) (t : TrunkConfig) : Bool :=
  !unavailable s now && s.activeCalls < t.maxConcurrentCalls

section

variable (r : Router)

/-- A trunk without a state is not full. -/
def Router.accepts (t : TrunkConfig) : Bool := (r.state t.id).all fun s => canAcceptCall s r.now t

/-- The first enabled trunk, whether or not it can take the call. -/
def Router.getDefaultTrunk : Option TrunkConfig := ((r.trunks.filter (·.enabled)).mergeSort cheaper).head?

def Router.domainMatch (uri : Uri) (t : TrunkConfig) : Bool := t.enabled ∧ t.host = uri.domain ∧ r.accepts t

def Router.findTrunkForUri (uri : Uri) : Except Error TrunkConfig :=
  match r.trunks.find? (r.domainMatch uri) with
  | some trunk => .ok trunk
  | none =>
      match ((r.trunks.filter fun t => t.enabled ∧ matchesPrefix t uri.user ∧ r.accepts t).mergeSort cheaper).head? with
      | some best => .ok best
      | none =>
          match r.getDefaultTrunk with
          | some trunk => .ok trunk
          | none => .error (.routing "No trunk available for route".toList)

def Router.routeRequest (uri : Uri) : Except Error TrunkConfig :=
  match r.findTrunkForUri uri with
  | .error e => .error e
  | .ok trunk =>
      if trunk.enabled = false then .error (.routing ("Trunk ".toList ++ trunk.name ++ " is disabled".toList))
      else if r.accepts trunk = false then .error (.routing ("Trunk ".toList ++ trunk.name ++ " at capacity".toList))
      else .ok trunk

/-- Trunks of the domain are in the list already. -/
def Router.lcrCandidates (uri : Uri) : List TrunkConfig :=
  (r.trunks.filter fun t =>
    t.enabled ∧ t.host ≠ uri.domain ∧ matchesPrefix t uri.user ∧ r.accepts t).mergeSort cheaper

def Router.defaults : List TrunkConfig := (r.trunks.filter fun t => t.enabled ∧ r.accepts t).mergeSort cheaper

def Router.routeRequestCandidates (uri : Uri) : List TrunkConfig :=
  let candidates := r.trunks.filter (r.domainMatch uri) ++ r.lcrCandidates uri
  if candidates = [] then r.defaults else candidates

end

section Order

theorem cheaper_trans (a b c : TrunkConfig) : cheaper a b → cheaper b c → cheaper a c := by
  simp only [cheaper, decide_eq_true_eq, UInt32.lt_iff_toNat_lt, UInt32.le_iff_toNat_le, ← UInt32.toNat_inj]
  omega

theorem cheaper_total (a b : TrunkConfig) : cheaper a b || cheaper b a := by
  simp only [cheaper, Bool.or_eq_true, decide_eq_true_eq, UInt32.lt_iff_toNat_lt, UInt32.le_iff_toNat_le,
    ← UInt32.toNat_inj]
  omega

end Order

/-- The trunks that match, the domain's before those of the dial prefixes. -/
def Router.matching (r : Router) (uri : Uri) : List TrunkConfig :=
  r.trunks.filter (r.domainMatch uri) ++ r.lcrCandidates uri

/-- What the failover list is to be. -/
structure Router.Ordered (r : Router) (uri : Uri) (l : List TrunkConfig) : Prop where
  nodup : (l.map (·.id)).Nodup
  usable : ∀ t ∈ l, t ∈ r.trunks ∧ t.enabled = true ∧ r.accepts t = true
  shape : ∃ rest, l = r.trunks.filter (r.domainMatch uri) ++ rest ∧ rest.Pairwise (cheaper · ·)
  complete : ∀ t ∈ r.trunks, t.enabled = true → r.accepts t = true → matchesPrefix t uri.user = true → t ∈ l

/-- A trunk is decided by a match, or the default trunk is free, or none is. -/
def Router.Decided (r : Router) (uri : Uri) : Prop :=
  (∃ t ∈ r.trunks, t.enabled = true ∧ r.accepts t = true ∧ (t.host = uri.domain ∨ matchesPrefix t uri.user = true)) ∨
    (∀ t, r.getDefaultTrunk = some t → r.accepts t = true) ∨
    ∀ t ∈ r.trunks, t.enabled = true → r.accepts t = false

section Candidates

variable {r : Router} {uri : Uri} {t : TrunkConfig}

theorem domainMatch_iff :
    r.domainMatch uri t = true ↔ t.enabled = true ∧ t.host = uri.domain ∧ r.accepts t = true := by
  simp [Router.domainMatch]

theorem mem_lcrCandidates : t ∈ r.lcrCandidates uri ↔
    t ∈ r.trunks ∧ t.enabled = true ∧ t.host ≠ uri.domain ∧ matchesPrefix t uri.user = true ∧ r.accepts t = true := by
  simp [Router.lcrCandidates]

theorem mem_defaults : t ∈ r.defaults ↔ t ∈ r.trunks ∧ t.enabled = true ∧ r.accepts t = true := by
  simp [Router.defaults]

theorem mem_matching : t ∈ r.matching uri ↔
    t ∈ r.trunks ∧ t.enabled = true ∧ r.accepts t = true ∧ (t.host = uri.domain ∨ matchesPrefix t uri.user = true) := by
  rw [Router.matching, List.mem_append, List.mem_filter, domainMatch_iff, mem_lcrCandidates]
  by_cases hdomain : t.host = uri.domain
  · simp [hdomain]
  · simp [hdomain]
    tauto

theorem candidates_eq : r.routeRequestCandidates uri = if r.matching uri = [] then r.defaults else r.matching uri := rfl

theorem nodup_filter (p : TrunkConfig → Bool) : ((r.trunks.filter p).map (·.id)).Nodup :=
  (List.filter_sublist.map _).nodup r.distinct

theorem nodup_sorted (p : TrunkConfig → Bool) : (((r.trunks.filter p).mergeSort cheaper).map (·.id)).Nodup :=
  ((List.mergeSort_perm _ _).map _).nodup_iff.mpr (nodup_filter p)

theorem nodup_matching : ((r.matching uri).map (·.id)).Nodup := by
  rw [Router.matching, List.map_append, List.nodup_append]
  refine ⟨nodup_filter _, nodup_sorted _, ?_⟩
  rintro id hid id' hid' rfl
  obtain ⟨t, ht, rfl⟩ := List.mem_map.mp hid
  obtain ⟨t', ht', hsame⟩ := List.mem_map.mp hid'
  obtain ⟨htrunk, hmatch⟩ := List.mem_filter.mp ht
  obtain ⟨htrunk', -, hother, -⟩ := mem_lcrCandidates.mp ht'
  obtain rfl := List.inj_on_of_nodup_map r.distinct htrunk' htrunk hsame
  exact hother (domainMatch_iff.mp hmatch).2.1

theorem pairwise_sorted (p : TrunkConfig → Bool) : ((r.trunks.filter p).mergeSort cheaper).Pairwise (cheaper · ·) :=
  List.pairwise_mergeSort cheaper_trans cheaper_total _

/-- The failover list is as it is to be, whatever the trunks. -/
theorem ordered_candidates (r : Router) (uri : Uri) : r.Ordered uri (r.routeRequestCandidates uri) := by
  rw [candidates_eq]
  split
  next hnone =>
    refine ⟨nodup_sorted _, fun t ht => mem_defaults.mp ht, ⟨r.defaults, ?_, pairwise_sorted _⟩, fun t ht he ha _ => ?_⟩
    · rw [(List.append_eq_nil_iff.mp hnone).1, List.nil_append]
    · exact mem_defaults.mpr ⟨ht, he, ha⟩
  next =>
    refine ⟨nodup_matching, fun t ht => ?_, ⟨_, rfl, pairwise_sorted _⟩, fun t ht he ha hp => ?_⟩
    · obtain ⟨htrunk, henabled, haccepts, -⟩ := mem_matching.mp ht
      exact ⟨htrunk, henabled, haccepts⟩
    · exact mem_matching.mpr ⟨ht, he, ha, .inr hp⟩

end Candidates

section Route

variable {r : Router} {uri : Uri}

/-- The single trunk is the first that matches, or the default. -/
theorem findTrunkForUri_eq : r.findTrunkForUri uri =
    match (r.matching uri).head? with
    | some t => .ok t
    | none =>
        match r.getDefaultTrunk with
        | some t => .ok t
        | none => .error (.routing "No trunk available for route".toList) := by
  rw [Router.findTrunkForUri, Router.matching, List.head?_append, List.head?_filter]
  cases hfind : r.trunks.find? (r.domainMatch uri) with
  | some t => rfl
  | none =>
      have hsame : (r.trunks.filter fun t => t.enabled ∧ matchesPrefix t uri.user ∧ r.accepts t) =
          r.trunks.filter fun t => t.enabled ∧ t.host ≠ uri.domain ∧ matchesPrefix t uri.user ∧ r.accepts t := by
        refine List.filter_congr fun t ht => ?_
        have hno := List.find?_eq_none.mp hfind t ht
        rw [domainMatch_iff] at hno
        rw [decide_eq_decide]
        tauto
      rw [hsame, Option.none_or]
      rfl

theorem routeRequest_matching {t : TrunkConfig} (h : (r.matching uri).head? = some t) :
    r.routeRequest uri = .ok t := by
  obtain ⟨-, henabled, haccepts, -⟩ := mem_matching.mp (List.mem_of_head? h)
  rw [Router.routeRequest, findTrunkForUri_eq, h]
  simp [henabled, haccepts]

def Router.enabledTrunks (r : Router) : List TrunkConfig := (r.trunks.filter (·.enabled)).mergeSort cheaper

theorem defaults_eq : r.defaults = r.enabledTrunks.filter r.accepts := by
  rw [Router.enabledTrunks, ← filter_mergeSort cheaper_trans cheaper_total, List.filter_filter, Router.defaults]
  congr 1
  refine List.filter_congr fun t _ => ?_
  rw [Bool.and_comm, Bool.decide_and, Bool.decide_eq_true, Bool.decide_eq_true]

theorem mem_enabledTrunks {t : TrunkConfig} : t ∈ r.enabledTrunks ↔ t ∈ r.trunks ∧ t.enabled = true := by
  simp [Router.enabledTrunks]

theorem routeRequest_default (hnone : r.matching uri = []) {t : TrunkConfig} :
    r.routeRequest uri = .ok t ↔ r.getDefaultTrunk = some t ∧ r.accepts t = true := by
  rw [Router.routeRequest, findTrunkForUri_eq, hnone, List.head?_nil]
  cases hdefault : r.getDefaultTrunk with
  | none => simp
  | some d =>
      have henabled : d.enabled = true := (mem_enabledTrunks.mp (List.mem_of_head? hdefault)).2
      cases haccepts : r.accepts d with
      | true =>
          simp only [henabled, haccepts, Bool.true_eq_false, if_false, Except.ok.injEq, Option.some.injEq]
          exact ⟨fun h => ⟨h, h ▸ haccepts⟩, And.left⟩
      | false =>
          simp only [henabled, haccepts, Bool.true_eq_false, if_false, if_true, reduceCtorEq, Option.some.injEq, false_iff]
          rintro ⟨rfl, htrue⟩
          rw [haccepts] at htrue
          cases htrue

/-- Without a match, the default trunk heads the list just when it is free or none is. -/
theorem default_agrees_iff (hnone : r.matching uri = []) :
    (∀ t, r.routeRequest uri = .ok t ↔ r.defaults.head? = some t) ↔
      (∀ t, r.getDefaultTrunk = some t → r.accepts t = true) ∨ ∀ t ∈ r.trunks, t.enabled = true → r.accepts t = false := by
  have hall : (∀ t ∈ r.trunks, t.enabled = true → r.accepts t = false) ↔ ∀ t ∈ r.enabledTrunks, r.accepts t = false := by
    simp only [mem_enabledTrunks, and_imp]
  have hdefault : r.getDefaultTrunk = r.enabledTrunks.head? := rfl
  simp only [routeRequest_default hnone, defaults_eq, List.head?_filter, hall, hdefault]
  cases r.enabledTrunks with
  | nil => simp
  | cons d rest =>
      cases haccepts : r.accepts d with
      | true =>
          refine iff_of_true (fun t => ?_) (.inl fun t ht => ?_)
          · rw [List.find?_cons_of_pos haccepts, List.head?_cons]
            exact ⟨fun h => h.1, fun h => ⟨h, Option.some.inj h ▸ haccepts⟩⟩
          · rw [← Option.some.inj ht, haccepts]
      | false =>
          have hrefused (t : TrunkConfig) : ¬((d :: rest).head? = some t ∧ r.accepts t = true) := by
            rintro ⟨ht, htrue⟩
            rw [← Option.some.inj ht, haccepts] at htrue
            cases htrue
          constructor
          · intro h
            refine .inr fun t ht => ?_
            have hfind : (d :: rest).find? r.accepts = none := by
              refine Option.eq_none_iff_forall_ne_some.mpr fun t' ht' => ?_
              exact hrefused t' ((h t').mpr ht')
            simpa using List.find?_eq_none.mp hfind t ht
          · rintro (hfree | hfull) t
            · have hd := hfree d rfl
              rw [haccepts] at hd
              cases hd
            · have hfind : (d :: rest).find? r.accepts = none :=
                List.find?_eq_none.mpr fun t' ht' => by simp [hfull t' ht']
              rw [hfind]
              exact iff_of_false (hrefused t) nofun

/-- The single trunk heads the failover list just when the trunks decide it. -/
theorem route_heads_candidates_iff (r : Router) (uri : Uri) :
    ((∀ t, r.routeRequest uri = .ok t ↔ (r.routeRequestCandidates uri).head? = some t) ∧
      r.Ordered uri (r.routeRequestCandidates uri)) ↔ r.Decided uri := by
  rw [and_iff_left (ordered_candidates r uri), candidates_eq]
  split
  next hnone =>
    have hno : ¬∃ t ∈ r.trunks,
        t.enabled = true ∧ r.accepts t = true ∧ (t.host = uri.domain ∨ matchesPrefix t uri.user = true) := by
      rintro ⟨t, ht⟩
      have hin := mem_matching.mpr ht
      rw [hnone] at hin
      cases hin
    rw [default_agrees_iff hnone, Router.Decided, or_iff_right hno]
  next hsome =>
    obtain ⟨t, hhead⟩ := Option.isSome_iff_exists.mp (List.isSome_head?.mpr hsome)
    refine iff_of_true (fun t' => ?_) (.inl ⟨t, mem_matching.mp (List.mem_of_head? hhead)⟩)
    rw [routeRequest_matching hhead, hhead]
    simp

end Route

def trunk (id : TrunkId) (priority maxConcurrentCalls : UInt32) : TrunkConfig :=
  { trunkRowToConfig HydrationFailures.plainEnv (fun _ => id) (TrunkConvergence.gateway true) ["34".toList] with
    priority, maxConcurrentCalls }

/-- The first of two trunks of the prefix 34 is full. -/
def fullFirst : Router where
  trunks := [trunk 1 10 0, trunk 2 20 1]
  state id := some (.new id)
  now := 0
  distinct := by decide

def elsewhere : Uri := ⟨"sip.example.org".toList, "44".toList⟩

theorem enabledTrunks_fullFirst : fullFirst.enabledTrunks = [trunk 1 10 0, trunk 2 20 1] := by
  have hfilter : fullFirst.trunks.filter (·.enabled) = [trunk 1 10 0, trunk 2 20 1] := rfl
  rw [Router.enabledTrunks, hfilter, List.mergeSort_of_pairwise]
  exact List.pairwise_pair.mpr (by decide)

theorem matching_fullFirst : fullFirst.matching elsewhere = [] := by
  have hdomain : fullFirst.trunks.filter (fullFirst.domainMatch elsewhere) = [] := rfl
  have hprefix : (fullFirst.trunks.filter fun t =>
      t.enabled ∧ t.host ≠ elsewhere.domain ∧ matchesPrefix t elsewhere.user ∧ fullFirst.accepts t) = [] := rfl
  rw [Router.matching, Router.lcrCandidates, hdomain, hprefix, List.mergeSort_nil, List.append_nil]

/-- A call that no trunk matches is refused although the second one could take it. -/
theorem full_default_refuses :
    ¬∀ t, fullFirst.routeRequest elsewhere = .ok t ↔ (fullFirst.routeRequestCandidates elsewhere).head? = some t := by
  intro h
  have hhead : (fullFirst.routeRequestCandidates elsewhere).head? = some (trunk 2 20 1) := by
    rw [candidates_eq, if_pos matching_fullFirst, defaults_eq, enabledTrunks_fullFirst]
    rfl
  obtain ⟨hdefault, -⟩ := (routeRequest_default matching_fullFirst).mp ((h (trunk 2 20 1)).mpr hhead)
  have hfirst : fullFirst.getDefaultTrunk = some (trunk 1 10 0) := congrArg List.head? enabledTrunks_fullFirst
  rw [hfirst] at hdefault
  have hid := congrArg (fun t => t.map (·.id)) hdefault
  revert hid
  decide

end NixiSbc.TrunkRouting
