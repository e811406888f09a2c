import NixiSbc.BanRows

namespace NixiSbc.BanEscalation

open KeyedTable NetAddr Bans Rfc3339 BanRows

inductive Call
  | recordFailure (ip : IpAddr) (reason : List Char)
  | ban (ip : IpAddr) (duration : Nat) (reason : List Char)
  | unban (ip : IpAddr)
  | cleanupExpired

section

variable (N : Networks)

def step (m : BanManager) : Clock × Call → BanManager
  | (now, .recordFailure ip reason) => (recordFailure N m now ip reason).2
  | (now, .ban ip duration reason) => (ban m now ip duration reason).2
  | (_, .unban ip) => (unban m ip).2
  | (now, .cleanupExpired) => (cleanupExpired m now).2

/-- The next automatic ban of an address. Where a failure panics there is none. -/
def nextBan (ip : IpAddr) (m : BanManager) : List (Clock × Call) → Option BanEntry
  | [] => none
  | (now, .recordFailure ip' reason) :: calls =>
      if ip' = ip then
        match (recordFailure N m now ip' reason).1 with
        | .banned e => some e
        | .panicked => none
        | .passed => nextBan ip (step N m (now, .recordFailure ip' reason)) calls
      else nextBan ip (step N m (now, .recordFailure ip' reason)) calls
  | call :: calls => nextBan ip (step N m call) calls

end

def duration (e : BanEntry) : Nat := e.expiresAt - e.bannedAt

/-- A fresh manager that is given the bans as they were persisted. -/
def restart (config : BanConfig) (now : Clock) (entries : List BanEntry) : BanManager :=
  ((entries.map rowOf).filterMap banRowToEntry).foldl (restore · now) (BanManager.new config)

/-- The offenses that the manager counts when a ban is in the table: a manual
ban has the number of the next one. -/
def counted (e : BanEntry) : UInt32 := if e.manual then e.offenseCount - 1 else e.offenseCount

/-- The offenses that come back with a ban. -/
def carried (now : Clock) (e : BanEntry) : UInt32 :=
  if now.system < wholeSeconds e.expiresAt then e.offenseCount else 0

/-- The offenses of an address. -/
def offensesOf (m : BanManager) (ip : IpAddr) : UInt32 := ((m.offenses.lookup ip).map Offense.count).getD 0

theorem nextOffense_eq (m : BanManager) (ip : IpAddr) : nextOffense m ip = offensesOf m ip + 1 := rfl

theorem step_recordFailure (N : Networks) (m : BanManager) (now : Clock) (ip : IpAddr) (reason : List Char) :
    step N m (now, .recordFailure ip reason) = (recordFailure N m now ip reason).2 := rfl

theorem step_ban (N : Networks) (m : BanManager) (now : Clock) (ip : IpAddr) (duration : Nat) (reason : List Char) :
    step N m (now, .ban ip duration reason) = (ban m now ip duration reason).2 := rfl

structure Inv (config : BanConfig) (m : BanManager) : Prop where
  config_eq : m.config = config
  ip_eq : ∀ {ip e}, m.bans.lookup ip = some e → e.ip = ip
  ordered : ∀ {ip e}, m.bans.lookup ip = some e → e.bannedAt ≤ e.expiresAt
  short : ∀ {ip e}, m.bans.lookup ip = some e → e.expiresAt / second < 2 ^ 63
  counts : ∀ {ip e}, m.bans.lookup ip = some e → counted e = offensesOf m ip

section Steps

variable {N : Networks} {config : BanConfig} {m : BanManager} {now : Clock} {ip a : IpAddr} {reason : List Char}

/-- Fewer bans, and the offenses as they were. -/
structure Fewer (m' m : BanManager) : Prop where
  config_eq : m'.config = m.config
  offenses_eq : m'.offenses = m.offenses
  bans : ∀ {ip e}, m'.bans.lookup ip = some e → m.bans.lookup ip = some e

theorem Fewer.refl (m : BanManager) : Fewer m m := ⟨rfl, rfl, id⟩

theorem Inv.fewer {m' : BanManager} (h : Inv config m) (hf : Fewer m' m) : Inv config m' where
  config_eq := hf.config_eq.trans h.config_eq
  ip_eq he := h.ip_eq (hf.bans he)
  ordered he := h.ordered (hf.bans he)
  short he := h.short (hf.bans he)
  counts he := by
    rw [offensesOf, hf.offenses_eq]
    exact h.counts (hf.bans he)

theorem fewer_removeBan (m : BanManager) (ip : IpAddr) : Fewer (removeBan m ip) m :=
  ⟨rfl, rfl, lookup_of_lookup_erase⟩

theorem fewer_isBanned (m : BanManager) (now : Clock) (ip : IpAddr) : Fewer (isBanned m now ip).2 m := by
  rw [isBanned]
  split
  next =>
    cases look m now ip with
    | banned => exact .refl m
    | expired => exact fewer_removeBan m ip
    | free => exact .refl m
  next => exact .refl m

/-- An address that is found free has no entry left. -/
theorem lookup_of_free (hactive : ¬(!m.config.enabled || isWhitelisted N m.config ip) = true)
    (hfree : ¬(isBanned m now ip).1 = true) : (isBanned m now ip).2.bans.lookup ip = none := by
  rw [Bool.or_eq_true, Bool.not_eq_true', not_or, Bool.not_eq_false] at hactive
  rw [isBanned, if_pos hactive.1] at hfree ⊢
  rw [look] at hfree ⊢
  cases hlookup : m.bans.lookup ip with
  | none => exact hlookup
  | some e =>
      rw [hlookup] at hfree
      dsimp only at hfree ⊢
      cases hexpired : e.isExpired now with
      | true =>
          change (m.bans.erase ip).lookup ip = none
          rw [AList.lookup_erase]
      | false =>
          rw [hexpired] at hfree
          exact absurd rfl hfree

/-- A failure changes nothing that counts, or a ban falls due for an address that has none. -/
theorem recordFailure_cases (N : Networks) (m : BanManager) (now : Clock) (ip : IpAddr) (reason : List Char) :
    ((recordFailure N m now ip reason).1 = .passed ∧ Fewer (recordFailure N m now ip reason).2 m) ∨
      ∃ m' count, Fewer m' m ∧ m'.bans.lookup ip = none ∧
        recordFailure N m now ip reason = punish m' now ip reason count := by
  have hfewer := fewer_isBanned m now ip
  rw [recordFailure]
  split
  next => exact .inl ⟨rfl, .refl m⟩
  next hactive =>
    dsimp only
    split
    next => exact .inl ⟨rfl, hfewer⟩
    next hfree =>
      split
      next => exact .inl ⟨rfl, ⟨hfewer.config_eq, hfewer.offenses_eq, hfewer.bans⟩⟩
      next =>
        refine .inr ⟨(strike (isBanned m now ip).2 now ip).2, (strike (isBanned m now ip).2 now ip).1,
          ⟨hfewer.config_eq, hfewer.offenses_eq, hfewer.bans⟩, ?_, rfl⟩
        exact lookup_of_free hactive hfree

theorem addSecs_short {system secs expiresAt : Nat} (h : addSecs system secs = some expiresAt) :
    expiresAt = system + secs * second ∧ expiresAt / second < 2 ^ 63 := by
  rw [addSecs] at h
  split at h
  next hlt =>
    cases h
    rw [Nat.add_mul_div_right _ _ second_pos]
    exact ⟨rfl, hlt⟩
  next => cases h

/-- A new entry that agrees with the count. -/
theorem Inv.insert {m' : BanManager} (h : Inv config m) (e : BanEntry) (hconfig : m'.config = m.config)
    (hbans : m'.bans = m.bans.insert e.ip e) (hoffenses : ∀ b, b ≠ e.ip → offensesOf m' b = offensesOf m b)
    (hordered : e.bannedAt ≤ e.expiresAt) (hshort : e.expiresAt / second < 2 ^ 63)
    (hcounts : counted e = offensesOf m' e.ip) : Inv config m' := by
  have hcases {b : IpAddr} {e' : BanEntry} (hb : m'.bans.lookup b = some e') :
      (b = e.ip ∧ e' = e) ∨ (b ≠ e.ip ∧ m.bans.lookup b = some e') := by
    rw [hbans, lookup_insert_eq] at hb
    split at hb
    next heq => exact .inl ⟨heq, (Option.some.inj hb).symm⟩
    next hne => exact .inr ⟨hne, hb⟩
  constructor
  case config_eq => exact hconfig.trans h.config_eq
  case ip_eq =>
    intro b e' hb
    rcases hcases hb with ⟨rfl, rfl⟩ | ⟨-, hb⟩
    · rfl
    · exact h.ip_eq hb
  case ordered =>
    intro b e' hb
    rcases hcases hb with ⟨rfl, rfl⟩ | ⟨-, hb⟩
    · exact hordered
    · exact h.ordered hb
  case short =>
    intro b e' hb
    rcases hcases hb with ⟨rfl, rfl⟩ | ⟨-, hb⟩
    · exact hshort
    · exact h.short hb
  case counts =>
    intro b e' hb
    rcases hcases hb with ⟨rfl, rfl⟩ | ⟨hne, hb⟩
    · exact hcounts
    · exact (h.counts hb).trans (hoffenses b hne).symm

theorem offensesOf_insert (m : BanManager) (now : Clock) (ip : IpAddr) (count : UInt32) :
    offensesOf (insertOffense m now ip count) ip = count := by
  rw [offensesOf, insertOffense, AList.lookup_insert]
  rfl

theorem offensesOf_insert_ne {b : IpAddr} (hb : b ≠ ip) (m : BanManager) (now : Clock) (count : UInt32) :
    offensesOf (insertOffense m now ip count) b = offensesOf m b := by
  rw [offensesOf, offensesOf, insertOffense, AList.lookup_insert_ne hb]

theorem Inv.punish (h : Inv config m) (hfree : m.bans.lookup ip = none) (count : UInt32) :
    Inv config (punish m now ip reason count).2 := by
  rw [Bans.punish]
  split
  next e he =>
    obtain ⟨expiresAt, hend, rfl⟩ := Option.map_eq_some_iff.mp he
    obtain ⟨hexpires, hshort⟩ := addSecs_short hend
    have hother : ∀ b, b ≠ ip →
        offensesOf (insertOffense (removeFailures m ip) now ip (nextOffense m ip)) b = offensesOf m b :=
      fun b hb => offensesOf_insert_ne hb _ now _
    refine h.insert ⟨ip, reason, now.system, expiresAt, count, false, nextOffense m ip⟩ rfl rfl hother ?_ hshort ?_
    · rw [hexpires]
      exact Nat.le_add_right _ _
    · exact (offensesOf_insert _ now ip _).symm
  next =>
    have hne {b : IpAddr} {e : BanEntry} (hb : m.bans.lookup b = some e) : b ≠ ip := by
      rintro rfl
      rw [hfree] at hb
      cases hb
    exact ⟨h.config_eq, h.ip_eq, h.ordered, h.short,
      fun hb => (h.counts hb).trans (offensesOf_insert_ne (hne hb) _ now _).symm⟩

theorem Inv.ban (h : Inv config m) (duration : Nat) : Inv config (ban m now ip duration reason).2 := by
  rw [Bans.ban]
  split
  next e he =>
    rw [manualEntry] at he
    split at he
    next hlt =>
      cases he
      have hshort : (now.system + duration) / second < 2 ^ 63 := Nat.div_lt_of_lt_mul (by rwa [Nat.mul_comm])
      refine h.insert (numbered ⟨ip, reason, now.system, now.system + duration, 0, true, 0⟩ (nextOffense m ip)) rfl rfl
        (fun _ _ => rfl) (Nat.le_add_right _ _) hshort ?_
      exact UInt32.add_sub_cancel _ _
    next => cases he
  next => exact h

theorem fewer_cleanupExpired (m : BanManager) (now : Clock) : Fewer (cleanupExpired m now).2 m := by
  refine ⟨rfl, rfl, fun {ip e} he => ?_⟩
  have hlookup : (m.bans.lookup ip).bind (fun e => if e.isExpired now then none else some e) = some e :=
    (lookup_sweep _ m.bans ip).symm.trans he
  obtain ⟨e', he', hlive⟩ := Option.bind_eq_some_iff.mp hlookup
  split at hlive
  next => cases hlive
  next =>
    rw [← Option.some.inj hlive]
    exact he'

theorem Inv.step (h : Inv config m) (call : Clock × Call) : Inv config (step N m call) := by
  obtain ⟨now, call⟩ := call
  cases call with
  | recordFailure ip reason =>
      rcases recordFailure_cases N m now ip reason with ⟨-, hfewer⟩ | ⟨m', count, hfewer, hfree, heq⟩
      · exact h.fewer hfewer
      · rw [step_recordFailure, heq]
        exact (h.fewer hfewer).punish hfree count
  | ban ip duration reason => exact h.ban duration
  | unban ip => exact h.fewer (fewer_removeBan m ip)
  | cleanupExpired => exact h.fewer (fewer_cleanupExpired m now)

theorem Inv.run (h : Inv config m) (calls : List (Clock × Call)) : Inv config (calls.foldl (BanEscalation.step N) m) := by
  induction calls generalizing m with
  | nil => exact h
  | cons call calls ih => exact ih (h.step call)

theorem inv_new (config : BanConfig) : Inv config (BanManager.new config) where
  config_eq := rfl
  ip_eq h := by cases h
  ordered h := by cases h
  short h := by cases h
  counts h := by cases h

theorem offensesOf_step_other {call : Clock × Call} (h : ∀ now reason, call ≠ (now, .recordFailure ip reason)) :
    offensesOf (step N m call) ip = offensesOf m ip := by
  obtain ⟨now, call⟩ := call
  cases call with
  | recordFailure ip' reason =>
      have hne : ip ≠ ip' := by
        rintro rfl
        exact h now reason rfl
      rcases recordFailure_cases N m now ip' reason with ⟨-, hfewer⟩ | ⟨m', count, hfewer, -, heq⟩
      · rw [step_recordFailure, offensesOf, hfewer.offenses_eq]
        rfl
      · rw [step_recordFailure, heq, Bans.punish]
        have hother : offensesOf (insertOffense (removeFailures m' ip') now ip' (nextOffense m' ip')) ip = offensesOf m ip := by
          rw [offensesOf_insert_ne hne, offensesOf, removeFailures, hfewer.offenses_eq]
          rfl
        split
        next => exact hother
        next => exact hother
  | ban ip' duration reason =>
      rw [step_ban, Bans.ban]
      split
      next => rfl
      next => rfl
  | unban => rfl
  | cleanupExpired => rfl

theorem step_config (m : BanManager) (call : Clock × Call) : (step N m call).config = m.config := by
  obtain ⟨now, call⟩ := call
  cases call with
  | recordFailure ip reason =>
      rcases recordFailure_cases N m now ip reason with ⟨-, hfewer⟩ | ⟨m', count, hfewer, -, heq⟩
      · exact hfewer.config_eq
      · rw [step_recordFailure, heq, Bans.punish]
        split
        next => exact hfewer.config_eq
        next => exact hfewer.config_eq
  | ban ip duration reason =>
      rw [step_ban, Bans.ban]
      split
      next => rfl
      next => rfl
  | unban => rfl
  | cleanupExpired => rfl

theorem duration_banned {e : BanEntry} (h : (recordFailure N m now ip reason).1 = .banned e) :
    duration e = banSecs m.config (offensesOf m ip + 1) * second := by
  rcases recordFailure_cases N m now ip reason with ⟨hpassed, -⟩ | ⟨m', count, hfewer, -, heq⟩
  · rw [hpassed] at h
    cases h
  · have hoffenses : nextOffense m' ip = offensesOf m ip + 1 := by
      rw [nextOffense_eq, offensesOf, hfewer.offenses_eq]
      rfl
    rw [heq, Bans.punish] at h
    split at h
    next e' he =>
      cases h
      obtain ⟨expiresAt, hend, rfl⟩ := Option.map_eq_some_iff.mp he
      rw [← hoffenses, ← hfewer.config_eq, duration, (addSecs_short hend).1]
      exact Nat.add_sub_cancel_left _ _
    next => cases h

/-- The next ban is as long as the offenses so far make it. -/
theorem duration_nextBan {calls : List (Clock × Call)} {e : BanEntry} (h : nextBan N ip m calls = some e) :
    duration e = banSecs m.config (offensesOf m ip + 1) * second := by
  fun_induction nextBan N ip m calls with
  | case1 => cases h
  | case2 m now reason calls e' hbanned =>
      cases h
      exact duration_banned hbanned
  | case3 m now reason calls hpanicked =>
      cases h
  | case4 m now reason calls hpassed ih =>
      rw [ih h, step_config]
      rcases recordFailure_cases N m now ip reason with ⟨-, hfewer⟩ | ⟨m', count, -, -, heq⟩
      · rw [step_recordFailure, offensesOf, hfewer.offenses_eq]
        rfl
      · rw [heq, Bans.punish] at hpassed
        split at hpassed
        next => cases hpassed
        next => cases hpassed
  | case5 m now ip' reason calls hne ih =>
      rw [ih h, step_config, offensesOf_step_other]
      rintro now' reason' heq
      cases heq
      exact hne rfl
  | case6 m call calls hother ih =>
      rw [ih h, step_config, offensesOf_step_other fun now reason heq => hother now ip reason heq]

end Steps

section Restart

variable {config : BanConfig} {now : Clock} {m : BanManager} {e : BanEntry} {entries : List BanEntry}

theorem parseTs_short {t : Nat} (h : t / second < 2 ^ 63) :
    parseTs (systemtimeRfc3339 t) = some (wholeSeconds t) := by
  apply parseTs_text
  have hyear := civil_year_lt (t / second)
  omega

theorem banRowToEntry_short (hordered : e.bannedAt ≤ e.expiresAt) (hshort : e.expiresAt / second < 2 ^ 63) :
    banRowToEntry (rowOf e) = some (rounded e) :=
  banRowToEntry_of_parse (parseTs_short ((Nat.div_le_div_right hordered).trans_lt hshort)) (parseTs_short hshort)

theorem offensesOf_restore (m : BanManager) (now : Clock) (e : BanEntry) {ip : IpAddr} (hne : ip ≠ e.ip) :
    offensesOf (restore m now e) ip = offensesOf m ip := by
  rw [restore]
  split
  next => rfl
  next => exact offensesOf_insert_ne hne m now e.offenseCount

theorem offensesOf_foldl_other {ip : IpAddr} (h : ∀ e ∈ entries, e.ip ≠ ip) :
    offensesOf (entries.foldl (restore · now) m) ip = offensesOf m ip := by
  induction entries generalizing m with
  | nil => rfl
  | cons e entries ih =>
      rw [List.foldl_cons, ih fun e' he' => h e' (List.mem_cons_of_mem e he'),
        offensesOf_restore m now e (h e List.mem_cons_self).symm]

/-- Of several bans each brings its own number back, if it has not expired. -/
theorem offensesOf_foldl (m : BanManager) (now : Clock) (hnodup : (entries.map (·.ip)).Nodup) (he : e ∈ entries) :
    offensesOf (entries.foldl (restore · now) m) e.ip =
      if e.isExpired now then offensesOf m e.ip else e.offenseCount := by
  induction entries generalizing m with
  | nil => cases he
  | cons e' entries ih =>
      rw [List.map_cons, List.nodup_cons] at hnodup
      rw [List.foldl_cons]
      rcases List.mem_cons.mp he with rfl | he
      · rw [offensesOf_foldl_other fun e' he' heq => hnodup.1 (List.mem_map.mpr ⟨e', he', heq⟩), restore]
        split
        next => rfl
        next => exact offensesOf_insert m now e.ip e.offenseCount
      · have hne : e.ip ≠ e'.ip := fun heq => hnodup.1 (heq ▸ List.mem_map_of_mem he)
        rw [ih _ hnodup.2 he, offensesOf_restore m now e' hne]

theorem offensesOf_restart (config : BanConfig) (now : Clock) (hnodup : (entries.map (·.ip)).Nodup)
    (hentries : ∀ e ∈ entries, e.bannedAt ≤ e.expiresAt ∧ e.expiresAt / second < 2 ^ 63) (he : e ∈ entries) :
    offensesOf (restart config now entries) e.ip = carried now e := by
  have hread : (entries.map rowOf).filterMap banRowToEntry = entries.map rounded := by
    rw [List.filterMap_map, ← List.filterMap_eq_map]
    apply List.filterMap_congr
    intro e he
    exact banRowToEntry_short (hentries e he).1 (hentries e he).2
  have hrounded : ((entries.map rounded).map (·.ip)).Nodup := by
    rw [List.map_map]
    exact hnodup
  have hmem := List.mem_map_of_mem (f := rounded) he
  have hfold := offensesOf_foldl (BanManager.new config) now hrounded hmem
  rw [restart, hread]
  refine hfold.trans ?_
  rw [BanEntry.isExpired, carried]
  by_cases hlive : now.system < wholeSeconds e.expiresAt
  · rw [if_pos hlive, if_neg]
    · rfl
    · exact fun h => absurd (of_decide_eq_true h) (Nat.not_le.mpr hlive)
  · rw [if_neg hlive, if_pos]
    · rfl
    · exact decide_eq_true (Nat.le_of_not_lt hlive)

theorem restart_config (config : BanConfig) (now : Clock) (entries : List BanEntry) :
    (restart config now entries).config = config := by
  rw [restart]
  generalize (entries.map rowOf).filterMap banRowToEntry = rows
  have hfold (m : BanManager) : (rows.foldl (restore · now) m).config = m.config := by
    induction rows generalizing m with
    | nil => rfl
    | cons e rows ih =>
        rw [List.foldl_cons, ih, restore]
        split
        next => rfl
        next => rfl
  exact hfold _

end Restart

/-- The next ban is as long as without the restart just when the ban that came
back was automatic and had a whole second left, or the escalation makes no
difference between the two offenses. -/
theorem restart_keeps_escalation_iff (N : Networks) (config : BanConfig) (history : List (Clock × Call)) (now : Clock)
    (entries : List BanEntry) (ip : IpAddr) (e : BanEntry) (calls calls' : List (Clock × Call)) {b b' : BanEntry}
    (he : (history.foldl (step N) (BanManager.new config)).bans.lookup ip = some e) (hlive : e.isExpired now = false)
    (hentries : entries.Perm (((history.foldl (step N) (BanManager.new config)).bans.entries.map (·.2)).filter
      fun e => !e.isExpired now))
    (hb : nextBan N ip (history.foldl (step N) (BanManager.new config)) calls = some b)
    (hb' : nextBan N ip (restart config now entries) calls' = some b') :
    duration b = duration b' ↔ e.manual = false ∧ now.system < wholeSeconds e.expiresAt ∨
      banSecs config (counted e + 1) = banSecs config (carried now e + 1) := by
  have hinv := (inv_new config).run (N := N) history
  generalize history.foldl (step N) (BanManager.new config) = m at he hentries hb hinv
  have hmem : ∀ e', e' ∈ entries → ∃ ip', m.bans.lookup ip' = some e' := by
    intro e' he'
    obtain ⟨entry, hentry, rfl⟩ := List.mem_map.mp (List.mem_of_mem_filter (hentries.subset he'))
    exact ⟨entry.1, AList.mem_lookup_iff.mpr hentry⟩
  have hin : e ∈ entries := by
    refine hentries.symm.subset (List.mem_filter.mpr ⟨List.mem_map.mpr ⟨⟨ip, e⟩, AList.mem_lookup_iff.mp he, rfl⟩, ?_⟩)
    rw [hlive]
    rfl
  have hnodup : (entries.map (·.ip)).Nodup := by
    have hkeys : (m.bans.entries.map (·.2)).map (·.ip) = m.bans.keys := by
      rw [List.map_map]
      apply List.map_congr_left
      rintro ⟨k, v⟩ hkv
      exact hinv.ip_eq (AList.mem_lookup_iff.mpr hkv)
    rw [(hentries.map _).nodup_iff]
    refine List.Nodup.sublist (List.filter_sublist.map _) ?_
    rw [hkeys]
    exact m.bans.nodupKeys
  have hrestart := offensesOf_restart config now hnodup (fun e' he' => by
    obtain ⟨ip', hlookup⟩ := hmem e' he'
    exact ⟨hinv.ordered hlookup, hinv.short hlookup⟩) hin
  rw [hinv.ip_eq he] at hrestart
  rw [duration_nextBan hb, duration_nextBan hb', hinv.config_eq, restart_config, hrestart, ← hinv.counts he,
    Nat.mul_left_inj second_pos.ne']
  refine ⟨.inr, fun h => h.elim (fun ⟨hauto, hleft⟩ => ?_) id⟩
  rw [counted, carried, hauto, if_pos hleft]
  rfl

section Sample

def strict : BanConfig := ⟨true, 1, 60, 3600, 4, 86400, []⟩

def noNetworks : Networks := fun _ _ => none

def scanner : IpAddr := .v4 ⟨#[192, 0, 2, 9], rfl⟩

def atSecond (n : Nat) : Clock := ⟨n * second, n * second⟩

def scanned : BanEntry := ⟨scanner, [], 1000 * second, 4600 * second, 1, false, 1⟩

def blocked : BanEntry := ⟨scanner, [], 1000 * second, 4600 * second, 0, true, 1⟩

/-- The ban is lifted, and the address fails once more. -/
def again : List (Clock × Call) := [(atSecond 1002, .unban scanner), (atSecond 1003, .recordFailure scanner [])]

def rescanned : BanEntry := ⟨scanner, [], 1003 * second, 15403 * second, 1, false, 2⟩

theorem restart_keeps_escalation_scanned :
    ∃ b b', nextBan noNetworks scanner
        (step noNetworks (BanManager.new strict) (atSecond 1000, .recordFailure scanner [])) again = some b ∧
      nextBan noNetworks scanner (restart strict (atSecond 1001) [scanned]) again = some b' ∧ duration b = duration b' := by
  have hb : nextBan noNetworks scanner
      (step noNetworks (BanManager.new strict) (atSecond 1000, .recordFailure scanner [])) again = some rescanned := by
    decide +kernel
  have hb' : nextBan noNetworks scanner (restart strict (atSecond 1001) [scanned]) again = some rescanned := by
    decide +kernel
  refine ⟨_, _, hb, hb', ?_⟩
  exact (restart_keeps_escalation_iff noNetworks strict [(atSecond 1000, .recordFailure scanner [])] (atSecond 1001)
    [scanned] scanner scanned again again (by decide +kernel) (by decide +kernel) (by decide +kernel) hb hb').mpr
      (.inl (by decide +kernel))

/-- A manual ban has the number of the next offense, and that comes back as the count. -/
theorem manual_ban_escalates :
    (step noNetworks (BanManager.new strict) (atSecond 1000, .ban scanner (3600 * second) [])).bans.lookup scanner =
        some blocked ∧
      (nextBan noNetworks scanner
        (step noNetworks (BanManager.new strict) (atSecond 1000, .ban scanner (3600 * second) [])) again).map duration =
          some (3600 * second) ∧
      (nextBan noNetworks scanner (restart strict (atSecond 1001) [blocked]) again).map duration = some (14400 * second) := by
  decide +kernel

end Sample

end NixiSbc.BanEscalation
