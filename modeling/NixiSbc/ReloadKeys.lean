import Mathlib.Data.List.DropRight

namespace NixiSbc.ReloadKeys

/-- What a change of a key needs to take effect. -/
inductive KeyClass
  | reload | restart | seed | unused
  deriving DecidableEq

def reloadKeys : List (List Char) := [
  "security.max_call_duration", "security.call_setup_timeout", "security.rtp_timeout",
  "security.invite_timeout", "security.session_timer_enabled", "security.session_expires",
  "security.min_se", "security.register_aor_check", "security.served_domains", "security.trunk_local_from",
  "security.register_min_expires", "security.register_max_expires", "security.register_default_expires",
  "security.rate_limit_per_ip", "security.ban.", "security.destinations.enabled",
  "security.destinations.default_action", "security.destinations.default_country_code",
  "security.user_limits.enabled", "security.user_limits.default_max_concurrent_calls",
  "security.user_limits.default_max_calls_per_minute"].map String.toList

def restartKeys : List (List Char) := [
  "general.cdr_file", "network.listeners", "network.public_ipv4", "media.rtp_port_range", "database.",
  "security.sip_realm", "security.enable_digest_auth", "management.", "trunk_health.", "logging.", "cdr."].map String.toList

def seedKeys : List (List Char) := [
  "security.sip_users", "trunks", "dids", "security.destinations.rules",
  "security.destinations.seed_irsf_rules", "security.user_limits.overrides"].map String.toList

/-- A key is matched by itself, by its section, or by a key that it stands under. -/
def matchesPrefix (path p : List Char) : Bool :=
  path == p.rdropWhile (· == '.') || p.isPrefixOf path || (p.getLast? != some '.' && (p ++ ['.']).isPrefixOf path)

def longestMatch (path : List Char) (prefixes : List (List Char)) : Nat :=
  ((prefixes.filter (matchesPrefix path)).map List.length).max?.getD 0

@[irreducible]
def classifyKey (path : List Char) : KeyClass :=
  let reload := longestMatch path reloadKeys
  let restart := longestMatch path restartKeys
  let seed := longestMatch path seedKeys
  let best := max (max reload restart) seed
  if best = 0 then .unused
  else if best = reload then .reload
  else if best = restart then .restart
  else .seed

/-- Neither text begins the other. -/
def Apart (s t : List Char) : Prop := ¬s <+: t ∧ ¬t <+: s

instance (s t : List Char) : Decidable (Apart s t) := inferInstanceAs (Decidable (¬s <+: t ∧ ¬t <+: s))

variable {front more path p : List Char} {prefixes : List (List Char)}

theorem prefix_of_matchesPrefix (h : matchesPrefix path p = true) : p.rdropWhile (· == '.') <+: path := by
  rw [matchesPrefix, Bool.or_eq_true, Bool.or_eq_true, Bool.and_eq_true] at h
  rcases h with (h | h) | ⟨-, h⟩
  · exact ⟨[], (List.append_nil _).trans (beq_iff_eq.mp h).symm⟩
  · exact (List.rdropWhile_prefix _ p).trans (List.isPrefixOf_iff_prefix.mp h)
  · exact (List.rdropWhile_prefix _ p).trans ((List.prefix_append p ['.']).trans (List.isPrefixOf_iff_prefix.mp h))

/-- A key matches nothing under a text that is apart from it. -/
theorem matchesPrefix_append (h : Apart (p.rdropWhile (· == '.')) front) (more : List Char) :
    matchesPrefix (front ++ more) p = false := by
  rw [Bool.eq_false_iff]
  intro hmatch
  rcases List.prefix_or_prefix_of_prefix (prefix_of_matchesPrefix hmatch) (List.prefix_append front more) with hp | hp
  · exact h.1 hp
  · exact h.2 hp

theorem filter_matchesPrefix_append (h : ∀ p ∈ prefixes, Apart (p.rdropWhile (· == '.')) front)
    (more : List Char) : prefixes.filter (matchesPrefix (front ++ more)) = [] := by
  refine List.filter_eq_nil_iff.mpr fun p hp => ?_
  rw [matchesPrefix_append (h p hp) more]
  exact Bool.false_ne_true

theorem longestMatch_append (h : ∀ p ∈ prefixes, Apart (p.rdropWhile (· == '.')) front) (more : List Char) :
    longestMatch (front ++ more) prefixes = 0 := by
  rw [longestMatch, filter_matchesPrefix_append h more]
  rfl

/-- The first text of a list is spelled letter by letter. -/
theorem forall_spelled_cons {P : List Char → Prop} {letters : List Char} {texts : List String} (hhead : P letters)
    (htail : ∀ p ∈ texts.map String.toList, P p) :
    ∀ p ∈ (String.ofList letters :: texts).map String.toList, P p := by
  rw [List.map_cons, String.toList_ofList]
  exact List.forall_mem_cons.mpr ⟨hhead, htail⟩

def sipUsersPath : List Char := "security.sip_users".toList

/-- No key of the other classes begins the users' section, and none begins with it. -/
theorem apart_reloadKeys : ∀ p ∈ reloadKeys, Apart (p.rdropWhile (· == '.')) sipUsersPath := by
  unfold reloadKeys
  repeat refine forall_spelled_cons (by decide) ?_
  exact List.forall_mem_nil _

theorem apart_restartKeys : ∀ p ∈ restartKeys, Apart (p.rdropWhile (· == '.')) sipUsersPath := by
  unfold restartKeys
  repeat refine forall_spelled_cons (by decide) ?_
  exact List.forall_mem_nil _

theorem apart_seedKeys : ∀ p ∈ seedKeys.tail, Apart (p.rdropWhile (· == '.')) sipUsersPath := by
  change ∀ p ∈ List.map String.toList _, _
  repeat refine forall_spelled_cons (by decide) ?_
  exact List.forall_mem_nil _

/-- The users' section and every key in it are of one class, whatever the user's name. -/
theorem classifyKey_sipUsers (more : List Char) : classifyKey (sipUsersPath ++ more) = .seed := by
  have hreload : longestMatch (sipUsersPath ++ more) reloadKeys = 0 := longestMatch_append apart_reloadKeys more
  have hrestart : longestMatch (sipUsersPath ++ more) restartKeys = 0 :=
    longestMatch_append apart_restartKeys more
  have hseed : longestMatch (sipUsersPath ++ more) seedKeys = sipUsersPath.length := by
    have hkeys : seedKeys = sipUsersPath :: seedKeys.tail := rfl
    have hself : matchesPrefix (sipUsersPath ++ more) sipUsersPath = true := by
      rw [matchesPrefix, List.isPrefixOf_iff_prefix.mpr (List.prefix_append _ _), Bool.or_true, Bool.true_or]
    have hrest : seedKeys.tail.filter (matchesPrefix (sipUsersPath ++ more)) = [] :=
      filter_matchesPrefix_append apart_seedKeys more
    rw [longestMatch, hkeys, List.filter_cons_of_pos hself, hrest]
    rfl
  rw [classifyKey, hreload, hrestart, hseed]
  rfl

end NixiSbc.ReloadKeys
