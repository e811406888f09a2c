import NixiSbc.ObjectTrees
import NixiSbc.ReloadKeys
import Mathlib.Data.Char
import Mathlib.Data.List.Lex

namespace NixiSbc.ConfigOverlay

open OrderedMaps ObjectTrees ReloadKeys

section

/-- The fields of the configuration with a value of their own, by their sections. -/
inductive Key
  | generalCdrFile | generalName | generalInstanceId
  | networkListeners | networkPublicIpv4 | networkPublicIpv6
  | mediaRtpPortRange | mediaRtcpEnabled | mediaTranscodingThreads | mediaCodecs
  | webrtcEnabled | webrtcStunServers | webrtcTurnEnabled
  | sqlitePath | allowMissingStore | backupDir | backupIntervalHours | backupKeep
  | rateLimitGlobal | rateLimitPerIp | authChallengeTimeout | sipRealm | enableDigestAuth
  | registerAorCheck | servedDomains | trunkLocalFrom | registerMinExpires | registerMaxExpires
  | registerDefaultExpires | maxCallDuration | callSetupTimeout | rtpTimeout | inviteTimeout
  | sessionTimerEnabled | sessionExpires | minSe
  | banEnabled | banMaxFailures | banWindowSecs | banBanDurationSecs
  | banRepeatOffenderMultiplier | banMaxBanSecs | banSilentDrop | banWhitelist
  | destinationsEnabled | destinationsDefaultAction | destinationsDefaultCountryCode
  | destinationsRules | destinationsSeedIrsfRules
  | userLimitsEnabled | userLimitsDefaultMaxConcurrentCalls | userLimitsDefaultMaxCallsPerMinute
  | userLimitsOverrides
  | apiEnabled | apiBindAddress | apiPort | apiAuthToken | corsAllowedOrigins | allowPublicBind
  | apiRateLimitPerMin | trustedProxies | banOnAuthFailure
  | prometheusEnabled | prometheusBindAddress | prometheusPort
  | trunks | dids
  | trunkHealthOptionsInterval | trunkHealthOptionsTimeout | trunkHealthRegisterBackoffMax
  | loggingLevel | loggingFormat
  | cdrJsonlPath | cdrImportPath | cdrRetentionDays | cdrImportJsonl
  deriving DecidableEq

/-- A field, or the section that has a key for every user. -/
inductive Slot
  | field (k : Key)
  | sipUsers
  deriving DecidableEq

def field (name : String) (k : Key) : List Char × Tree (List Char) Slot := (name.toList, .leaf (.field k))

def group (name : String) (fields : List (List Char × Tree (List Char) Slot)) : List Char × Tree (List Char) Slot :=
  (name.toList, .object fields)

/-- The object that a configuration is written as, with the keys in the order of the map. -/
def template : Tree (List Char) Slot := .object [
  group "cdr" [
    field "import_jsonl" .cdrImportJsonl, field "import_path" .cdrImportPath,
    field "jsonl_path" .cdrJsonlPath, field "retention_days" .cdrRetentionDays],
  group "database" [
    field "allow_missing_store" .allowMissingStore, field "backup_dir" .backupDir,
    field "backup_interval_hours" .backupIntervalHours, field "backup_keep" .backupKeep,
    field "sqlite_path" .sqlitePath],
  field "dids" .dids,
  group "general" [
    field "cdr_file" .generalCdrFile, field "instance_id" .generalInstanceId, field "name" .generalName],
  group "logging" [
    field "format" .loggingFormat, field "level" .loggingLevel],
  group "management" [
    field "allow_public_bind" .allowPublicBind, field "api_auth_token" .apiAuthToken,
    field "api_bind_address" .apiBindAddress, field "api_enabled" .apiEnabled,
    field "api_port" .apiPort, field "api_rate_limit_per_min" .apiRateLimitPerMin,
    field "ban_on_auth_failure" .banOnAuthFailure, field "cors_allowed_origins" .corsAllowedOrigins,
    field "trusted_proxies" .trustedProxies],
  group "media" [
    field "codecs" .mediaCodecs, field "rtcp_enabled" .mediaRtcpEnabled,
    field "rtp_port_range" .mediaRtpPortRange, field "transcoding_threads" .mediaTranscodingThreads,
    group "webrtc" [
      field "enabled" .webrtcEnabled, field "stun_servers" .webrtcStunServers,
      field "turn_enabled" .webrtcTurnEnabled]],
  group "metrics" [
    field "prometheus_bind_address" .prometheusBindAddress,
    field "prometheus_enabled" .prometheusEnabled, field "prometheus_port" .prometheusPort],
  group "network" [
    field "listeners" .networkListeners, field "public_ipv4" .networkPublicIpv4,
    field "public_ipv6" .networkPublicIpv6],
  group "security" [
    field "auth_challenge_timeout" .authChallengeTimeout,
    group "ban" [
      field "ban_duration_secs" .banBanDurationSecs, field "enabled" .banEnabled,
      field "max_ban_secs" .banMaxBanSecs, field "max_failures" .banMaxFailures,
      field "repeat_offender_multiplier" .banRepeatOffenderMultiplier,
      field "silent_drop" .banSilentDrop, field "whitelist" .banWhitelist,
      field "window_secs" .banWindowSecs],
    field "call_setup_timeout" .callSetupTimeout,
    group "destinations" [
      field "default_action" .destinationsDefaultAction,
      field "default_country_code" .destinationsDefaultCountryCode,
      field "enabled" .destinationsEnabled, field "rules" .destinationsRules,
      field "seed_irsf_rules" .destinationsSeedIrsfRules],
    field "enable_digest_auth" .enableDigestAuth, field "invite_timeout" .inviteTimeout,
    field "max_call_duration" .maxCallDuration, field "min_se" .minSe,
    field "rate_limit_global" .rateLimitGlobal, field "rate_limit_per_ip" .rateLimitPerIp,
    field "register_aor_check" .registerAorCheck,
    field "register_default_expires" .registerDefaultExpires,
    field "register_max_expires" .registerMaxExpires, field "register_min_expires" .registerMinExpires,
    field "rtp_timeout" .rtpTimeout, field "served_domains" .servedDomains,
    field "session_expires" .sessionExpires, field "session_timer_enabled" .sessionTimerEnabled,
    field "sip_realm" .sipRealm, ("sip_users".toList, .leaf .sipUsers),
    field "trunk_local_from" .trunkLocalFrom,
    group "user_limits" [
      field "default_max_calls_per_minute" .userLimitsDefaultMaxCallsPerMinute,
      field "default_max_concurrent_calls" .userLimitsDefaultMaxConcurrentCalls,
      field "enabled" .userLimitsEnabled, field "overrides" .userLimitsOverrides]],
  group "trunk_health" [
    field "options_interval" .trunkHealthOptionsInterval,
    field "options_timeout" .trunkHealthOptionsTimeout,
    field "register_backoff_max" .trunkHealthRegisterBackoffMax],
  field "trunks" .trunks]

variable {V : Type}

/-- The types of the fields, with the value that a field is written as. -/
structure FieldTypes (V : Type) where
  Of : Key → Type
  json : (k : Key) → Of k → V
  text : List Char → V

variable (T : FieldTypes V)

@[ext]
structure SbcConfig where
  value : (k : Key) → T.Of k
  sipUsers : List (List Char × List Char)
  sorted : Sorted sipUsers

variable {T}

def SbcConfig.content (c : SbcConfig T) : Slot → Tree (List Char) V
  | .field k => .leaf (T.json k (c.value k))
  | .sipUsers => .object (c.sipUsers.map fun u => (u.1, .leaf (T.text u.2)))

def SbcConfig.toValue (c : SbcConfig T) : Tree (List Char) V := fill c.content template

variable (T) in
/-- Reading gives back the configuration that was written. -/
structure Serde where
  fromValue : Tree (List Char) V → Option (SbcConfig T)
  fromValue_toValue (c : SbcConfig T) : fromValue c.toValue = some c

def join (front k : List Char) : List Char := if front = [] then k else front ++ '.' :: k

def configLeaves (cfg : SbcConfig T) : List (List Char × V) := ofList (leaves join [] cfg.toValue)

structure ConfigDiff where
  restartRequired : List (List Char)
  reloadPending : List (List Char)
  deriving DecidableEq

def diffKey [DecidableEq V] (a b : List (List Char × V)) (diff : ConfigDiff) (key : List Char) : ConfigDiff :=
  if get? key a = get? key b then diff
  else match classifyKey key with
    | .reload => { diff with reloadPending := diff.reloadPending ++ [key] }
    | .restart => { diff with restartRequired := diff.restartRequired ++ [key] }
    | .seed | .unused => diff

/-- The keys of the two configurations are gone through in order, each of them once. -/
def configDiff [DecidableEq V] (running candidate : SbcConfig T) : ConfigDiff :=
  let a := configLeaves running
  let b := configLeaves candidate
  ((ofList ((a ++ b).map fun e => (e.1, ()))).map (·.1)).foldl (diffKey a b) ⟨[], []⟩

def putLeaf (base : Tree (List Char) V) (e : List Char × V) : Option (Tree (List Char) V) :=
  if classifyKey e.1 ≠ .reload then some base else write e.2 (e.1.splitOn '.') base

/-- Without a result where the walk along a path comes to a value that is no object. -/
def overlayReloadKeys (S : Serde T) (effective loaded : SbcConfig T) : Option (SbcConfig T) := do
  let base ← (leaves join [] loaded.toValue).foldlM putLeaf effective.toValue
  some ((S.fromValue base).getD effective)

end

/-- The dotted path of a place. -/
@[irreducible]
def Slot.path (s : Slot) : List Char := (((slots template).find? (·.2 = s)).map (·.1.foldl join [])).getD []

section Template

variable {letters : List Char} {fields fields' inner inner' : List (List Char × Tree (List Char) Slot)}

theorem field_spelled (k : Key) (h : fields = fields') :
    field (String.ofList letters) k :: fields = (letters, .leaf (.field k)) :: fields' := by
  rw [field, String.toList_ofList, h]

theorem group_spelled (hinner : inner = inner') (h : fields = fields') :
    group (String.ofList letters) inner :: fields = (letters, .object inner') :: fields' := by
  rw [group, String.toList_ofList, hinner, h]

theorem users_spelled (h : fields = fields') :
    ((String.ofList letters).toList, .leaf .sipUsers) :: fields = (letters, .leaf .sipUsers) :: fields' := by
  rw [String.toList_ofList, h]

theorem nothing_spelled : ([] : List (List Char × Tree (List Char) Slot)) = [] := rfl

-- in what follows the names are spelled out first: the kernel is slow at taking a text apart

theorem template_shape : Ordered (template : Tree (List Char) Slot) = true ∧ ((slots template).map (·.2)).Nodup ∧
    (∀ e ∈ slots template, e.1 ≠ [] ∧ ∀ name ∈ e.1, name ≠ [] ∧ '.' ∉ name) ∧ ∀ s, s ∈ (slots template).map (·.2) := by
  have hspelled : template = _ := congrArg Tree.object (by
    repeat' first | exact nothing_spelled | apply field_spelled | apply group_spelled | apply users_spelled)
  rw [hspelled]
  refine ⟨by decide +kernel, by decide +kernel, by decide +kernel, fun s => ?_⟩
  cases s with
  | field k => cases k <;> decide +kernel
  | sipUsers => decide +kernel

theorem ordered_template : Ordered (template : Tree (List Char) Slot) = true := template_shape.1

theorem nodup_template : ((slots template).map (·.2)).Nodup := template_shape.2.1

theorem mem_template (s : Slot) : s ∈ (slots template).map (·.2) := template_shape.2.2.2 s

theorem foldl_join (front : List Char) (hfront : front ≠ []) (names : List (List Char)) :
    names.foldl join front = ['.'].intercalate (front :: names) := by
  induction names generalizing front with
  | nil => rw [List.foldl_nil, List.intercalate_singleton]
  | cons name names ih =>
      have hjoin : join front name = front ++ '.' :: name := if_neg hfront
      rw [List.foldl_cons, hjoin, ih _ (List.append_ne_nil_of_left_ne_nil hfront _), List.intercalate_cons_cons]
      cases names with
      | nil => simp
      | cons next names => simp

/-- Splitting the dotted path gives the keys again. -/
theorem splitOn_joined {e : List (List Char) × Slot} (he : e ∈ slots template) :
    e.1 ≠ [] ∧ (e.1.foldl join []).splitOn '.' = e.1 := by
  obtain ⟨hne, hnames⟩ := template_shape.2.2.1 e he
  refine ⟨hne, ?_⟩
  cases hpath : e.1 with
  | nil => exact absurd hpath hne
  | cons front names =>
      rw [hpath] at hnames
      have hjoin : join [] front = front := if_pos rfl
      rw [List.foldl_cons, hjoin, foldl_join front (hnames front List.mem_cons_self).1 names]
      exact List.splitOn_intercalate '.' (fun name hname => (hnames name hname).2) (List.cons_ne_nil _ _)

theorem path_sipUsers : Slot.sipUsers.path = sipUsersPath := by decide +kernel

theorem find?_of_nodup {α β : Type} [DecidableEq β] {l : List (α × β)} (h : (l.map (·.2)).Nodup) {e : α × β}
    (he : e ∈ l) : l.find? (·.2 = e.2) = some e := by
  induction l with
  | nil => exact absurd he List.not_mem_nil
  | cons e' l ih =>
      obtain ⟨hhead, htail⟩ := List.nodup_cons.mp h
      rcases List.mem_cons.mp he with rfl | he
      · exact List.find?_cons_of_pos (decide_eq_true rfl)
      · have hne : e'.2 ≠ e.2 := by
          intro heq
          exact hhead (List.mem_map.mpr ⟨e, he, heq.symm⟩)
        rw [List.find?_cons_of_neg (by simpa using hne), ih htail he]

theorem path_of_mem {e : List (List Char) × Slot} (he : e ∈ slots template) : e.2.path = e.1.foldl join [] := by
  rw [Slot.path, find?_of_nodup nodup_template he]
  rfl

end Template

variable {V : Type} {T : FieldTypes V} {S : Serde T} {e n : SbcConfig T}

section Written

theorem toValue_injective (hjson : ∀ k, Function.Injective (T.json k)) (htext : Function.Injective T.text) :
    Function.Injective fun c : SbcConfig T => c.toValue := by
  intro c c' h
  have hcontent : ∀ s, c.content s = c'.content s := fun s => eq_of_fill_eq h (mem_template s)
  ext1
  · funext k
    exact hjson k (Tree.leaf.inj (hcontent (.field k)))
  · refine List.map_injective_iff.mpr ?_ (Tree.object.inj (hcontent .sipUsers))
    rintro ⟨user, password⟩ ⟨user', password'⟩ hu
    obtain ⟨huser, hpassword⟩ := Prod.mk.inj hu
    exact Prod.ext huser (htext (Tree.leaf.inj hpassword))

/-- Fields that write different values differently can be read back. -/
theorem nonempty_serde (hjson : ∀ k, Function.Injective (T.json k)) (htext : Function.Injective T.text) :
    Nonempty (Serde T) :=
  ⟨⟨Function.partialInv SbcConfig.toValue, Function.partialInv_left (toValue_injective hjson htext)⟩⟩

end Written

section Leaves

/-- The fields that a reload applies are those of the loaded configuration. -/
def SbcConfig.overlaid (e n : SbcConfig T) : SbcConfig T where
  value k := if classifyKey (Slot.field k).path = .reload then n.value k else e.value k
  sipUsers := e.sipUsers
  sorted := e.sorted

theorem value_overlaid (e n : SbcConfig T) (k : Key) :
    (e.overlaid n).value k = if classifyKey (Slot.field k).path = .reload then n.value k else e.value k := rfl

theorem sipUsers_overlaid (e n : SbcConfig T) : (e.overlaid n).sipUsers = e.sipUsers := rfl

theorem content_overlaid (e n : SbcConfig T) (s : Slot) :
    (e.overlaid n).content s = if classifyKey s.path = .reload then n.content s else e.content s := by
  cases s with
  | field k =>
      simp only [SbcConfig.content, value_overlaid]
      split_ifs <;> rfl
  | sipUsers =>
      have hseed : classifyKey Slot.sipUsers.path = .seed := by
        rw [path_sipUsers]
        exact classifyKey_sipUsers []
      rw [hseed, if_neg (by decide), SbcConfig.content, SbcConfig.content, sipUsers_overlaid]

/-- Everything in a place is of the class of the place. -/
theorem classifyKey_of_mem {c : SbcConfig T} {s : Slot} {x : List Char × V}
    (hx : x ∈ leaves join s.path (c.content s)) : classifyKey x.1 = classifyKey s.path := by
  cases s with
  | field k => rw [List.mem_singleton.mp hx]
  | sipUsers =>
      rw [SbcConfig.content, leaves_object, List.flatMap_map] at hx
      obtain ⟨u, -, hu⟩ := List.mem_flatMap.mp hx
      rw [List.mem_singleton.mp hu, path_sipUsers]
      exact (classifyKey_sipUsers ('.' :: u.1)).trans (classifyKey_sipUsers []).symm

theorem leaves_toValue (c : SbcConfig T) :
    leaves join [] c.toValue = (slots template).flatMap fun s => leaves join s.2.path (c.content s.2) := by
  rw [SbcConfig.toValue, leaves_fill]
  refine List.flatMap_congr fun s hs => ?_
  rw [path_of_mem hs]

theorem filter_leaves_overlaid (e n : SbcConfig T) (path : List Char) (s : Slot) :
    (leaves join s.path ((e.overlaid n).content s)).filter (·.1 = path) =
      (leaves join s.path ((if classifyKey path = .reload then n else e).content s)).filter (·.1 = path) := by
  by_cases hclass : classifyKey s.path = classifyKey path
  · rw [content_overlaid, hclass]
    split_ifs <;> rfl
  · -- nothing in the place has this path
    have hnone : ∀ c : SbcConfig T, (leaves join s.path (c.content s)).filter (·.1 = path) = [] := by
      intro c
      refine List.filter_eq_nil_iff.mpr fun x hx => ?_
      rw [decide_eq_true_eq]
      rintro rfl
      exact hclass (classifyKey_of_mem hx).symm
    rw [hnone, hnone]

/-- Every leaf of a reload-class key is that of the loaded configuration, every other leaf
is that of the running one. -/
theorem get?_overlaid (e n : SbcConfig T) (path : List Char) :
    get? path (configLeaves (e.overlaid n)) =
      if classifyKey path = .reload then get? path (configLeaves n) else get? path (configLeaves e) := by
  have hfilter : (leaves join [] (e.overlaid n).toValue).filter (·.1 = path) =
      (leaves join [] (if classifyKey path = .reload then n else e).toValue).filter (·.1 = path) := by
    rw [leaves_toValue, leaves_toValue, List.filter_flatMap, List.filter_flatMap]
    exact List.flatMap_congr fun s _ => filter_leaves_overlaid e n path s.2
  rw [← apply_ite (fun c => get? path (configLeaves c)), configLeaves, configLeaves]
  exact get?_ofList_congr hfilter

end Leaves

section Overlay

theorem foldlM_putLeaf_other {l : List (List Char × V)} (h : ∀ x ∈ l, classifyKey x.1 ≠ .reload)
    (base : Tree (List Char) V) : l.foldlM putLeaf base = some base := by
  induction l with
  | nil => rfl
  | cons x l ih =>
      obtain ⟨hx, hl⟩ := List.forall_mem_cons.mp h
      rw [List.foldlM_cons, putLeaf, if_pos hx]
      exact ih hl

/-- What the places hold when the leaves of one more place are put. -/
def take (n : SbcConfig T) (content : Slot → Tree (List Char) V) (s : Slot) : Slot → Tree (List Char) V :=
  if classifyKey s.path = .reload then Function.update content s (n.content s) else content

theorem foldl_take_apply (l : List Slot) (content : Slot → Tree (List Char) V) (s : Slot) :
    l.foldl (take n) content s = if s ∈ l ∧ classifyKey s.path = .reload then n.content s else content s := by
  induction l generalizing content with
  | nil => simp
  | cons s' l ih =>
      rw [List.foldl_cons, ih, take]
      by_cases hs : s = s'
      · subst hs
        split_ifs <;> simp_all
      · split_ifs <;> simp_all

theorem putLeaves_slot {s : List (List Char) × Slot} (hs : s ∈ slots template)
    (content : Slot → Tree (List Char) V) :
    (leaves join s.2.path (n.content s.2)).foldlM putLeaf (fill content template) =
      some (fill (take n content s.2) template) := by
  rw [take]
  by_cases hclass : classifyKey s.2.path = .reload
  · rw [if_pos hclass]
    obtain ⟨path, k | _⟩ := s
    · obtain ⟨hpath, hsplit⟩ := splitOn_joined hs
      have hwrite := write_fill ordered_template nodup_template hs hpath content (T.json k (n.value k))
      have hput : putLeaf (fill content template) ((Slot.field k).path, T.json k (n.value k)) =
          some (fill (Function.update content (.field k) (.leaf (T.json k (n.value k)))) template) := by
        rw [putLeaf, if_neg (not_not.mpr hclass), path_of_mem hs, hsplit, hwrite]
      rw [SbcConfig.content, leaves, List.foldlM_cons, hput]
      rfl
    · rw [path_sipUsers, ← List.append_nil sipUsersPath, classifyKey_sipUsers] at hclass
      cases hclass
  · rw [if_neg hclass]
    exact foldlM_putLeaf_other (fun x hx => classifyKey_of_mem hx ▸ hclass) _

theorem putLeaves_slots {l : List (List (List Char) × Slot)} (hl : ∀ s ∈ l, s ∈ slots template)
    (content : Slot → Tree (List Char) V) :
    (l.flatMap fun s => leaves join s.2.path (n.content s.2)).foldlM putLeaf (fill content template) =
      some (fill ((l.map (·.2)).foldl (take n) content) template) := by
  induction l generalizing content with
  | nil => rfl
  | cons s l ih =>
      obtain ⟨hs, hl⟩ := List.forall_mem_cons.mp hl
      rw [List.flatMap_cons, List.foldlM_append, putLeaves_slot hs, List.map_cons, List.foldl_cons]
      exact ih hl _

/-- Overlaying writes the object of the configuration with the applied fields. -/
theorem overlayReloadKeys_eq (S : Serde T) (e n : SbcConfig T) : overlayReloadKeys S e n = some (e.overlaid n) := by
  have hfill : fill (((slots template).map (·.2)).foldl (take n) e.content) template = (e.overlaid n).toValue := by
    refine fill_congr fun s hs => ?_
    rw [foldl_take_apply, content_overlaid]
    simp only [hs, true_and]
  rw [overlayReloadKeys, leaves_toValue, SbcConfig.toValue, putLeaves_slots (fun _ h => h), hfill]
  exact congrArg some (congrArg (Option.getD · e) (S.fromValue_toValue _))

end Overlay

section Differences

/-- The keys of two configurations. -/
def allKeys (a b : SbcConfig T) : List (List Char) :=
  (ofList ((configLeaves a ++ configLeaves b).map fun e => (e.1, ()))).map (·.1)

/-- A key that differs is a key of one of the two. -/
theorem mem_allKeys_of_ne {a b : SbcConfig T} {key : List Char}
    (h : get? key (configLeaves a) ≠ get? key (configLeaves b)) : key ∈ allKeys a b := by
  rw [allKeys, mem_keys_ofList, List.map_map, Function.comp_def, List.map_append, List.mem_append]
  by_contra hmem
  obtain ⟨ha, hb⟩ := not_or.mp hmem
  exact h ((get?_eq_none.mpr ha).trans (get?_eq_none.mpr hb).symm)

theorem sorted_allKeys (a b : SbcConfig T) : (allKeys a b).Pairwise (· < ·) := sorted_ofList _

variable [DecidableEq V]

theorem foldl_diffKey (a b : List (List Char × V)) (keys : List (List Char)) (diff : ConfigDiff) :
    keys.foldl (diffKey a b) diff =
      ⟨diff.restartRequired ++ keys.filter fun key => get? key a ≠ get? key b ∧ classifyKey key = .restart,
        diff.reloadPending ++ keys.filter fun key => get? key a ≠ get? key b ∧ classifyKey key = .reload⟩ := by
  induction keys generalizing diff with
  | nil => simp
  | cons key keys ih =>
      rw [List.foldl_cons, ih, diffKey]
      by_cases hkey : get? key a = get? key b
      · simp [hkey]
      · cases hclass : classifyKey key <;> simp [hkey, hclass]

theorem configDiff_eq (a b : SbcConfig T) : configDiff a b =
    ⟨(allKeys a b).filter fun key =>
        get? key (configLeaves a) ≠ get? key (configLeaves b) ∧ classifyKey key = .restart,
      (allKeys a b).filter fun key =>
        get? key (configLeaves a) ≠ get? key (configLeaves b) ∧ classifyKey key = .reload⟩ := by
  change (allKeys a b).foldl (diffKey (configLeaves a) (configLeaves b)) ⟨[], []⟩ = _
  rw [foldl_diffKey, List.nil_append, List.nil_append]

variable (a b : SbcConfig T) (key : List Char)

theorem mem_reloadPending : key ∈ (configDiff a b).reloadPending ↔
    get? key (configLeaves a) ≠ get? key (configLeaves b) ∧ classifyKey key = .reload := by
  simp only [configDiff_eq, List.mem_filter, decide_eq_true_eq]
  exact and_iff_right_of_imp fun h => mem_allKeys_of_ne h.1

theorem mem_restartRequired : key ∈ (configDiff a b).restartRequired ↔
    get? key (configLeaves a) ≠ get? key (configLeaves b) ∧ classifyKey key = .restart := by
  simp only [configDiff_eq, List.mem_filter, decide_eq_true_eq]
  exact and_iff_right_of_imp fun h => mem_allKeys_of_ne h.1

theorem sorted_restartRequired : (configDiff a b).restartRequired.Pairwise (· < ·) := by
  simp only [configDiff_eq]
  exact (sorted_allKeys a b).filter _

variable (e n : SbcConfig T)

theorem reloadPending_overlaid : (configDiff (e.overlaid n) n).reloadPending = [] := by
  refine List.eq_nil_iff_forall_not_mem.mpr fun key hkey => ?_
  obtain ⟨hne, hclass⟩ := (mem_reloadPending _ _ _).mp hkey
  rw [get?_overlaid, if_pos hclass] at hne
  exact hne rfl

theorem restartRequired_overlaid :
    (configDiff (e.overlaid n) n).restartRequired = (configDiff e n).restartRequired := by
  refine List.Pairwise.eq_of_mem_iff (sorted_restartRequired _ _) (sorted_restartRequired _ _) fun key => ?_
  rw [mem_restartRequired, mem_restartRequired]
  refine and_congr_left fun hclass => ?_
  rw [get?_overlaid, hclass, if_neg (by decide)]

end Differences

section Repeats

/-- What one reload applied the next one replaces. -/
theorem overlaid_overlaid (e m n : SbcConfig T) : (e.overlaid m).overlaid n = e.overlaid n := by
  ext1
  · funext k
    rw [value_overlaid, value_overlaid, value_overlaid]
    split_ifs <;> rfl
  · rw [sipUsers_overlaid, sipUsers_overlaid, sipUsers_overlaid]

theorem overlaid_self (e : SbcConfig T) : e.overlaid e = e := by
  ext1
  · funext k
    rw [value_overlaid, ite_self]
  · rw [sipUsers_overlaid]

end Repeats

end NixiSbc.ConfigOverlay
