import NixiSbc.Bans
import NixiSbc.StateRuns

namespace NixiSbc.BanRace

open KeyedTable NetAddr StateRuns Bans

/-- Where a running call stands: each constructor is one access to a shared map,
or one reading of the clock, that comes next. -/
inductive Task
  | lookThenReturn (ip : IpAddr)
  | removeThenReturn (ip : IpAddr)
  | lookThenStrike (ip : IpAddr) (reason : List Char)
  | removeThenStrike (ip : IpAddr) (reason : List Char)
  | strike (ip : IpAddr) (reason : List Char)
  | removeFailures (ip : IpAddr) (reason : List Char) (count : UInt32)
  | getOffense (ip : IpAddr) (reason : List Char) (count : UInt32)
  | insertOffense (ip : IpAddr) (reason : List Char) (count offense : UInt32)
  | makeEntry (ip : IpAddr) (reason : List Char) (count offense : UInt32)
  | insertBan (ip : IpAddr) (entry : BanEntry)
  | makeManualEntry (ip : IpAddr) (duration : Nat) (reason : List Char)
  | getManualOffense (ip : IpAddr) (entry : BanEntry)
  | unban (ip : IpAddr)
  | scan (visited expired : List IpAddr)
  | removeAll (expired : List IpAddr)
  | checkRestored (entry : BanEntry)
  | insertRestored (entry : BanEntry)
  deriving DecidableEq

inductive Call
  | isBanned (ip : IpAddr)
  | recordFailure (ip : IpAddr) (reason : List Char)
  | ban (ip : IpAddr) (duration : Nat) (reason : List Char)
  | unban (ip : IpAddr)
  | cleanupExpired
  | restore (entry : BanEntry)
  deriving DecidableEq

/-- The first step of a call; none when it returns without one. -/
def begin (N : Networks) (config : BanConfig) : Call → Option Task
  | .isBanned ip => if config.enabled then some (.lookThenReturn ip) else none
  | .recordFailure ip reason =>
      if !config.enabled || isWhitelisted N config ip then none else some (.lookThenStrike ip reason)
  | .ban ip duration reason => some (.makeManualEntry ip duration reason)
  | .unban ip => some (.unban ip)
  | .cleanupExpired => some (.scan [] [])
  | .restore entry => some (.checkRestored entry)

/-- One step of a task: what comes next, if anything, and the shared maps after it. -/
def advance (m : BanManager) (now : Clock) : Task → Option Task × BanManager
  | .lookThenReturn ip =>
      match look m now ip with
      | .expired => (some (.removeThenReturn ip), m)
      | _ => (none, m)
  | .removeThenReturn ip => (none, removeBan m ip)
  | .lookThenStrike ip reason =>
      match look m now ip with
      | .expired => (some (.removeThenStrike ip reason), m)
      | .banned => (none, m)
      | .free => (some (.strike ip reason), m)
  | .removeThenStrike ip reason => (some (.strike ip reason), removeBan m ip)
  | .strike ip reason =>
      let r := Bans.strike m now ip
      if r.1 < m.config.maxFailures then (none, r.2) else (some (.removeFailures ip reason r.1), r.2)
  | .removeFailures ip reason count =>
      (some (.getOffense ip reason count), Bans.removeFailures m ip)
  | .getOffense ip reason count => (some (.insertOffense ip reason count (nextOffense m ip)), m)
  | .insertOffense ip reason count offense =>
      (some (.makeEntry ip reason count offense), Bans.insertOffense m now ip offense)
  | .makeEntry ip reason count offense =>
      ((earned m.config now ip reason count offense).map (.insertBan ip), m)
  | .insertBan ip entry => (none, Bans.insertBan m ip entry)
  | .makeManualEntry ip duration reason =>
      ((manualEntry now ip duration reason).map (.getManualOffense ip), m)
  | .getManualOffense ip entry => (some (.insertBan ip (numbered entry (nextOffense m ip))), m)
  | .unban ip => (none, removeBan m ip)
  | .scan _ expired => (some (.removeAll expired), m)
  | .removeAll [] => (none, m)
  | .removeAll (ip :: rest) => (some (.removeAll rest), removeBan m ip)
  | .checkRestored entry => (if entry.isExpired now then none else some (.insertRestored entry), m)
  | .insertRestored entry =>
      (some (.insertBan entry.ip entry), Bans.insertOffense m now entry.ip entry.offenseCount)

/-- The iteration of a scan comes to a key that it has not met. -/
def visit (m : BanManager) (now : Clock) (ip : IpAddr) : Task → Task
  | .scan visited expired =>
      if ip ∈ visited then .scan visited expired
      else .scan (ip :: visited) (if look m now ip = .expired then expired ++ [ip] else expired)
  | t => t

/-- The shared maps and the calls that are under way, each with a number. -/
structure System where
  manager : BanManager
  tasks : Table Nat Task
  clock : Clock

inductive Action
  | start (id : Nat) (call : Call)
  | run (id : Nat)
  | visit (id : Nat) (ip : IpAddr)

def setTask (tasks : Table Nat Task) (id : Nat) : Option Task → Table Nat Task
  | some t => tasks.insert id t
  | none => tasks.erase id

def step (N : Networks) (s : System) : Clock × Action → System
  | (now, .start id call) =>
      match s.tasks.lookup id with
      | none => ⟨s.manager, setTask s.tasks id (begin N s.manager.config call), now⟩
      | some _ => { s with clock := now }
  | (now, .run id) =>
      match s.tasks.lookup id with
      | some t =>
          let r := advance s.manager now t
          ⟨r.2, setTask s.tasks id r.1, now⟩
      | none => { s with clock := now }
  | (now, .visit id ip) =>
      match s.tasks.lookup id with
      | some t => ⟨s.manager, s.tasks.insert id (visit s.manager now ip t), now⟩
      | none => { s with clock := now }

/-- Run a call alone, for at most so many steps. -/
def alone (now : Clock) : Nat → Option Task → BanManager → BanManager
  | _, none, m => m
  | 0, some _, m => m
  | n + 1, some t, m => alone now n (advance m now t).1 (advance m now t).2

section Alone

variable (N : Networks) (m : BanManager) (now : Clock)

attribute [local simp] begin advance

@[simp] theorem alone_none (n : Nat) : alone now n none m = m := by
  cases n with
  | zero => rfl
  | succ n => rfl

theorem alone_some (n : Nat) (t : Task) :
    alone now (n + 1) (some t) m = alone now n (advance m now t).1 (advance m now t).2 := rfl

theorem alone_isBanned (ip : IpAddr) :
    alone now 2 (begin N m.config (.isBanned ip)) m = (isBanned m now ip).2 := by
  simp only [begin, isBanned]
  split
  · cases hl : look m now ip <;> simp [alone_some, hl]
  · rfl

/-- The steps from the strike on. -/
theorem alone_strike (n : Nat) (ip : IpAddr) (reason : List Char) :
    alone now (n + 6) (some (.strike ip reason)) m =
      if (Bans.strike m now ip).1 < m.config.maxFailures then (Bans.strike m now ip).2
      else (punish (Bans.strike m now ip).2 now ip reason (Bans.strike m now ip).1).2 := by
  rw [alone_some, advance]
  split
  next => rfl
  next =>
    unfold punish
    simp only [alone_some, advance]
    have hnext (m : BanManager) : nextOffense (Bans.removeFailures m ip) ip = nextOffense m ip := rfl
    rw [hnext]
    cases earned _ now ip reason _ _ with
    | none => rfl
    | some e => simp only [Option.map_some, alone_some, alone_none, advance]

theorem alone_recordFailure (ip : IpAddr) (reason : List Char) :
    alone now 8 (begin N m.config (.recordFailure ip reason)) m =
      (recordFailure N m now ip reason).2 := by
  simp only [begin, recordFailure]
  split
  next => rfl
  next hopen =>
    have hen : m.config.enabled = true := by
      cases h : m.config.enabled with
      | true => rfl
      | false => simp [h] at hopen
    rw [alone_some]
    simp only [advance, isBanned, hen, if_true]
    cases look m now ip with
    | banned => rfl
    | free =>
        change alone now (1 + 6) (some (.strike ip reason)) m = _
        rw [alone_strike]
        split
        next => simp
        next => simp
    | expired =>
        change alone now (0 + 6) (some (.strike ip reason)) (removeBan m ip) = _
        rw [alone_strike]
        have hconfig : (removeBan m ip).config = m.config := rfl
        rw [hconfig]
        split
        next => simp
        next => simp

theorem alone_ban (ip : IpAddr) (duration : Nat) (reason : List Char) :
    alone now 3 (begin N m.config (.ban ip duration reason)) m =
      (ban m now ip duration reason).2 := by
  simp only [begin, ban, alone_some, advance]
  cases manualEntry now ip duration reason with
  | none => rfl
  | some e => rfl

theorem alone_unban (ip : IpAddr) :
    alone now 1 (begin N m.config (.unban ip)) m = (unban m ip).2 := rfl

theorem alone_restore (e : BanEntry) :
    alone now 3 (begin N m.config (.restore e)) m = restore m now e := by
  simp only [begin, restore, alone_some, advance]
  split
  next => rfl
  next => rfl

theorem visit_all (keys visited expired : List IpAddr) (hnodup : keys.Nodup)
    (hnew : ∀ ip ∈ keys, ip ∉ visited) :
    ∃ seen, keys.foldl (fun t ip => visit m now ip t) (.scan visited expired) =
      .scan seen (expired ++ keys.filter fun ip => look m now ip = .expired) := by
  induction keys generalizing visited expired with
  | nil => exact ⟨visited, by simp⟩
  | cons ip keys ih =>
      obtain ⟨hfresh, hrest⟩ := List.nodup_cons.mp hnodup
      have hip : ip ∉ visited := hnew ip List.mem_cons_self
      have hnew' : ∀ ip' ∈ keys, ip' ∉ ip :: visited := by
        intro ip' hip' hmem
        rcases List.mem_cons.mp hmem with rfl | hmem
        · exact hfresh hip'
        · exact hnew ip' (List.mem_cons_of_mem _ hip') hmem
      rw [List.foldl_cons, visit, if_neg hip]
      by_cases hexp : look m now ip = .expired
      · obtain ⟨seen, hseen⟩ := ih (ip :: visited) (expired ++ [ip]) hrest hnew'
        refine ⟨seen, ?_⟩
        rw [if_pos hexp, hseen, List.filter_cons_of_pos (by simpa using hexp), List.append_assoc,
          List.singleton_append]
      · obtain ⟨seen, hseen⟩ := ih (ip :: visited) expired hrest hnew'
        refine ⟨seen, ?_⟩
        rw [if_neg hexp, hseen, List.filter_cons_of_neg (by simpa using hexp)]

theorem alone_removeAll (expired : List IpAddr) (ip : IpAddr) :
    (alone now (expired.length + 1) (some (.removeAll expired)) m).bans.lookup ip =
      if ip ∈ expired then none else m.bans.lookup ip := by
  induction expired generalizing m with
  | nil => rfl
  | cons ip' rest ih =>
      change (alone now (rest.length + 1) (some (.removeAll rest)) (removeBan m ip')).bans.lookup ip = _
      rw [ih, removeBan]
      by_cases hrest : ip ∈ rest
      · rw [if_pos hrest, if_pos (List.mem_cons_of_mem _ hrest)]
      · rw [if_neg hrest]
        by_cases hip : ip = ip'
        · subst hip
          rw [if_pos List.mem_cons_self, AList.lookup_erase]
        · rw [AList.lookup_erase_ne hip, if_neg (List.not_mem_cons_of_ne_of_not_mem hip hrest)]

/-- A scan that meets every key and is followed by its removals is the whole cleanup. -/
theorem alone_cleanupExpired (ip : IpAddr) :
    ∃ n, (alone now n (some (m.bans.keys.foldl (fun t ip => visit m now ip t) (.scan [] []))) m).bans.lookup
      ip = (cleanupExpired m now).2.bans.lookup ip := by
  obtain ⟨seen, hseen⟩ := visit_all m now m.bans.keys [] [] m.bans.keys_nodup (by simp)
  refine ⟨(m.bans.keys.filter fun ip => look m now ip = .expired).length + 1 + 1, ?_⟩
  have hmem : ip ∈ (m.bans.keys.filter fun ip => look m now ip = .expired) ↔
      look m now ip = .expired := by
    rw [List.mem_filter, decide_eq_true_eq, and_iff_right_iff_imp]
    intro hexp
    rw [← AList.mem_keys, ← AList.lookup_isSome]
    rw [look] at hexp
    cases hb : m.bans.lookup ip with
    | none =>
        rw [hb] at hexp
        cases hexp
    | some e => rfl
  rw [hseen, List.nil_append, alone_some, advance, alone_removeAll, cleanupExpired, lookup_sweep,
    if_congr hmem rfl rfl, look]
  cases m.bans.lookup ip with
  | none => rfl
  | some e => cases he : e.isExpired now <;> simp [he]

end Alone

/-- The addresses that a task has read to be expired and is going to remove. -/
def doomed : Task → List IpAddr
  | .removeThenReturn ip => [ip]
  | .removeThenStrike ip _ => [ip]
  | .scan _ expired => expired
  | .removeAll expired => expired
  | _ => []

def System.running (s : System) (id : Nat) (t : Task) : Prop := s.tasks.lookup id = some t

/-- The address whose ban a task puts into the map or, for an unban, lifts. -/
def overriddenBy : Task → Option IpAddr
  | .insertBan ip _ => some ip
  | .unban ip => some ip
  | _ => none

def Overrides (s : System) (ip : IpAddr) : Action → Prop
  | .run id => (s.tasks.lookup id).bind overriddenBy = some ip
  | _ => False

instance decidableOverrides (s : System) (ip : IpAddr) : ∀ a, Decidable (Overrides s ip a)
  | .run _ => inferInstanceAs (Decidable (_ = _))
  | .start .. => inferInstanceAs (Decidable False)
  | .visit .. => inferInstanceAs (Decidable False)

/-- Every ban that has not expired is still there after the step, unless the
step replaces it or lifts it. -/
def KeepsBans (N : Networks) (s : System) (e : Clock × Action) : Prop :=
  ∀ ip entry, s.manager.bans.lookup ip = some entry → entry.isExpired e.1 = false →
    ¬ Overrides s ip e.2 → (step N s e).manager.bans.lookup ip = some entry

def InOrder (s : System) (e : Clock × Action) : Prop := s.clock.system ≤ e.1.system

/-- The ban that a task is about to put into the map. -/
def aboutToInsert : Task → Option (IpAddr × BanEntry)
  | .insertBan ip entry => some (ip, entry)
  | _ => none

/-- No ban is put into the map while some call that has read an expired ban of
the same address is still going to remove it. -/
def Unraced (s : System) : Clock × Action → Prop
  | (now, .run id) => ∀ p ∈ (s.tasks.lookup id).bind aboutToInsert, p.2.isExpired now = false →
      ∀ running ∈ s.tasks.entries, p.1 ∉ doomed running.2
  | _ => True

instance decidableUnraced (s : System) : ∀ e, Decidable (Unraced s e)
  | (_, .run _) => inferInstanceAs (Decidable (∀ p ∈ _, _))
  | (_, .start ..) => inferInstanceAs (Decidable True)
  | (_, .visit ..) => inferInstanceAs (Decidable True)

instance decidableInOrder (s : System) (e : Clock × Action) : Decidable (InOrder s e) :=
  inferInstanceAs (Decidable (_ ≤ _))

/-- What a task is going to remove has expired, if it is there at all. -/
def DoomedExpired (s : System) : Prop :=
  ∀ id t, s.running id t → ∀ ip ∈ doomed t, ∀ entry, s.manager.bans.lookup ip = some entry →
    entry.isExpired s.clock = true

section Steps

variable {N : Networks} {m : BanManager} {now : Clock} {ip : IpAddr} {entry : BanEntry}

theorem isExpired_later {clock : Clock} (h : entry.isExpired clock = true)
    (hle : clock.system ≤ now.system) : entry.isExpired now = true :=
  decide_eq_true ((of_decide_eq_true h).trans hle)

/-- All that one step does to the bans. -/
theorem advance_bans (m : BanManager) (now : Clock) (t : Task) :
    (advance m now t).2.bans = m.bans ∨
      (∃ ip ∈ doomed t, (advance m now t).2.bans = m.bans.erase ip) ∨
      (∃ ip, t = .unban ip ∧ (advance m now t).2.bans = m.bans.erase ip) ∨
      (∃ ip entry, t = .insertBan ip entry ∧ (advance m now t).2.bans = m.bans.insert ip entry) := by
  cases t with
  | lookThenReturn ip =>
      left
      simp only [advance]
      split
      next => rfl
      next => rfl
  | removeThenReturn ip => exact .inr (.inl ⟨ip, List.mem_singleton_self ip, rfl⟩)
  | lookThenStrike ip reason =>
      left
      simp only [advance]
      split
      next => rfl
      next => rfl
      next => rfl
  | removeThenStrike ip reason => exact .inr (.inl ⟨ip, List.mem_singleton_self ip, rfl⟩)
  | strike ip reason =>
      left
      simp only [advance]
      split
      next => rfl
      next => rfl
  | unban ip => exact .inr (.inr (.inl ⟨ip, rfl, rfl⟩))
  | insertBan ip entry => exact .inr (.inr (.inr ⟨ip, entry, rfl, rfl⟩))
  | removeAll expired =>
      cases expired with
      | nil => exact .inl rfl
      | cons ip rest => exact .inr (.inl ⟨ip, List.mem_cons_self, rfl⟩)
  | removeFailures ip reason count => exact .inl rfl
  | getOffense ip reason count => exact .inl rfl
  | insertOffense ip reason count offense => exact .inl rfl
  | makeEntry ip reason count offense => exact .inl rfl
  | makeManualEntry ip duration reason => exact .inl rfl
  | getManualOffense ip entry => exact .inl rfl
  | scan visited expired => exact .inl rfl
  | checkRestored entry => exact .inl rfl
  | insertRestored entry => exact .inl rfl

/-- What a task is going to remove after a step was so before, or is found
expired in this step. -/
theorem doomed_advance {t t' : Task} (h : (advance m now t).1 = some t') (hip : ip ∈ doomed t') :
    ip ∈ doomed t ∨ look m now ip = .expired := by
  cases t with
  | lookThenReturn ip' =>
      simp only [advance] at h
      split at h
      next hl =>
        cases h
        exact .inr (List.mem_singleton.mp hip ▸ hl)
      next => cases h
  | lookThenStrike ip' reason =>
      simp only [advance] at h
      split at h
      next hl =>
        cases h
        exact .inr (List.mem_singleton.mp hip ▸ hl)
      next => cases h
      next =>
        cases h
        cases hip
  | strike ip' reason =>
      simp only [advance] at h
      split at h
      next => cases h
      next =>
        cases h
        cases hip
  | makeEntry ip' reason count offense =>
      simp only [advance] at h
      obtain ⟨e, -, rfl⟩ := Option.map_eq_some_iff.mp h
      cases hip
  | makeManualEntry ip' duration reason =>
      simp only [advance] at h
      obtain ⟨e, -, rfl⟩ := Option.map_eq_some_iff.mp h
      cases hip
  | checkRestored e =>
      simp only [advance] at h
      split at h
      next => cases h
      next =>
        cases h
        cases hip
  | removeAll expired =>
      cases expired with
      | nil => cases h
      | cons ip' rest =>
          cases h
          exact .inl (List.mem_cons_of_mem _ hip)
  | scan visited expired =>
      cases h
      exact .inl hip
  | removeThenReturn ip' => cases h
  | removeThenStrike ip' reason =>
      cases h
      cases hip
  | removeFailures ip' reason count =>
      cases h
      cases hip
  | getOffense ip' reason count =>
      cases h
      cases hip
  | insertOffense ip' reason count offense =>
      cases h
      cases hip
  | insertBan ip' e => cases h
  | getManualOffense ip' e =>
      cases h
      cases hip
  | unban ip' => cases h
  | insertRestored e =>
      cases h
      cases hip

theorem doomed_visit {ip' : IpAddr} {t : Task} (hip : ip ∈ doomed (visit m now ip' t)) :
    ip ∈ doomed t ∨ look m now ip = .expired := by
  cases t with
  | scan visited expired =>
      rw [visit] at hip
      split at hip
      · exact .inl hip
      · change ip ∈ if look m now ip' = .expired then expired ++ [ip'] else expired at hip
        split at hip
        next hl =>
          rcases List.mem_append.mp hip with hip | hip
          · exact .inl hip
          · exact .inr (List.mem_singleton.mp hip ▸ hl)
        next => exact .inl hip
  | _ => exact .inl hip

theorem doomed_begin {config : BanConfig} {call : Call} {t : Task}
    (h : begin N config call = some t) : doomed t = [] := by
  cases call with
  | isBanned ip =>
      rw [begin] at h
      split at h
      · cases h
        rfl
      · cases h
  | recordFailure ip reason =>
      rw [begin] at h
      split at h
      · cases h
      · cases h
        rfl
  | ban ip duration reason =>
      cases h
      rfl
  | unban ip =>
      cases h
      rfl
  | cleanupExpired =>
      cases h
      rfl
  | restore entry =>
      cases h
      rfl

theorem lookup_setTask (tasks : Table Nat Task) (id id' : Nat) (o : Option Task) :
    (setTask tasks id o).lookup id' = if id' = id then o else tasks.lookup id' := by
  by_cases hid : id' = id
  · subst hid
    rw [if_pos rfl]
    cases o with
    | none => exact AList.lookup_erase id' tasks
    | some t => exact AList.lookup_insert tasks
  · rw [if_neg hid]
    cases o with
    | none => exact AList.lookup_erase_ne hid
    | some t => exact AList.lookup_insert_ne hid

theorem setTask_some (tasks : Table Nat Task) (id : Nat) (t : Task) :
    tasks.insert id t = setTask tasks id (some t) := rfl

/-- What is going to be removed after a step was going to be removed before it,
or is expired now. -/
theorem doomed_before {s : System} {e : Clock × Action} {id : Nat} {t : Task}
    (ht : (step N s e).running id t) (hip : ip ∈ doomed t) :
    (∃ t', s.running id t' ∧ ip ∈ doomed t') ∨ look s.manager e.1 ip = .expired := by
  obtain ⟨now, action⟩ := e
  cases action with
  | start id' call =>
      rw [System.running, step] at ht
      split at ht
      next hnone =>
        rw [lookup_setTask] at ht
        split at ht
        next =>
          rw [doomed_begin ht] at hip
          cases hip
        next => exact .inl ⟨t, ht, hip⟩
      next => exact .inl ⟨t, ht, hip⟩
  | run id' =>
      rw [System.running, step] at ht
      split at ht
      next t' ht' =>
        rw [lookup_setTask] at ht
        split at ht
        next hid =>
          rcases doomed_advance ht hip with hold | hlook
          · exact .inl ⟨t', hid ▸ ht', hold⟩
          · exact .inr hlook
        next => exact .inl ⟨t, ht, hip⟩
      next => exact .inl ⟨t, ht, hip⟩
  | visit id' ip' =>
      rw [System.running, step] at ht
      split at ht
      next t' ht' =>
        rw [setTask_some, lookup_setTask] at ht
        split at ht
        next hid =>
          cases ht
          rcases doomed_visit hip with hold | hlook
          · exact .inl ⟨t', hid ▸ ht', hold⟩
          · exact .inr hlook
        next => exact .inl ⟨t, ht, hip⟩
      next => exact .inl ⟨t, ht, hip⟩

/-- All that a step of the system does to the ban of one address. -/
theorem step_bans {s : System} {e : Clock × Action} (ip : IpAddr) :
    (step N s e).manager.bans.lookup ip = s.manager.bans.lookup ip ∨
      (∃ id t, s.running id t ∧ ip ∈ doomed t) ∧
        (step N s e).manager.bans.lookup ip = none ∨
      Overrides s ip e.2 ∧ (step N s e).manager.bans.lookup ip = none ∨
      (∃ id entry, e.2 = .run id ∧ s.running id (.insertBan ip entry) ∧
        (step N s e).manager.bans.lookup ip = some entry) := by
  obtain ⟨now, action⟩ := e
  cases action with
  | start id call =>
      left
      rw [step]
      split
      next => rfl
      next => rfl
  | visit id ip' =>
      left
      rw [step]
      split
      next => rfl
      next => rfl
  | run id =>
      cases ht : s.tasks.lookup id with
      | none =>
          left
          simp only [step, ht]
      | some t =>
          have hstep : (step N s (now, .run id)).manager = (advance s.manager now t).2 := by
            simp only [step, ht]
          rw [hstep]
          rcases advance_bans s.manager now t with hsame | ⟨ip', hdoomed, hbans⟩ |
            ⟨ip', rfl, hbans⟩ | ⟨ip', entry, rfl, hbans⟩
          · exact .inl (by rw [hsame])
          · by_cases hip : ip = ip'
            · subst hip
              exact .inr (.inl ⟨⟨id, t, ht, hdoomed⟩, by rw [hbans, AList.lookup_erase]⟩)
            · exact .inl (by rw [hbans, AList.lookup_erase_ne hip])
          · by_cases hip : ip = ip'
            · subst hip
              exact .inr (.inr (.inl ⟨by rw [Overrides, ht]; rfl, by rw [hbans, AList.lookup_erase]⟩))
            · exact .inl (by rw [hbans, AList.lookup_erase_ne hip])
          · by_cases hip : ip = ip'
            · subst hip
              exact .inr (.inr (.inr ⟨id, entry, rfl, ht, by rw [hbans, AList.lookup_insert]⟩))
            · exact .inl (by rw [hbans, AList.lookup_insert_ne hip])

theorem step_clock (N : Networks) (s : System) (e : Clock × Action) : (step N s e).clock = e.1 := by
  obtain ⟨now, action⟩ := e
  cases action with
  | start id call =>
      rw [step]
      split
      next => rfl
      next => rfl
  | run id =>
      rw [step]
      split
      next => rfl
      next => rfl
  | visit id ip =>
      rw [step]
      split
      next => rfl
      next => rfl

/-- After a task has put a ban into the map, the tasks that run were running before. -/
theorem running_before_insertBan {s : System} {id id' : Nat} {t : Task}
    (h : s.running id' (.insertBan ip entry))
    (ht : (step N s (now, .run id')).running id t) : s.running id t := by
  have hstep : (step N s (now, .run id')).tasks = setTask s.tasks id' none := by
    rw [System.running] at h
    simp only [step, h, advance]
  rw [System.running, hstep, lookup_setTask] at ht
  split at ht
  next => cases ht
  next => exact ht

theorem step_doomedExpired (s : System) (e : Clock × Action) (h : DoomedExpired s)
    (ha : InOrder s e ∧ Unraced s e) : DoomedExpired (step N s e) := by
  intro id t ht ip hip entry hentry
  rw [step_clock]
  -- an entry that was there before is expired by now
  have hold : ∀ old, s.manager.bans.lookup ip = some old → old.isExpired e.1 = true := by
    intro old hlookup
    rcases doomed_before ht hip with ⟨t', ht', hip'⟩ | hlook
    · exact isExpired_later (h id t' ht' ip hip' old hlookup) ha.1
    · obtain ⟨old', hlookup', hexp⟩ := look_eq_expired hlook
      cases hlookup.symm.trans hlookup'
      exact hexp
  rcases step_bans (N := N) (s := s) (e := e) ip with hsame | ⟨-, hnone⟩ | ⟨-, hnone⟩ |
    ⟨id', entry', hrun, hins, hnew⟩
  · exact hold entry (hsame.symm.trans hentry)
  · cases hnone.symm.trans hentry
  · cases hnone.symm.trans hentry
  · cases hnew.symm.trans hentry
    obtain ⟨now, action⟩ := e
    cases hrun
    by_contra hfresh
    have hmem : (⟨id, t⟩ : Sigma fun _ : Nat => Task) ∈ s.tasks.entries :=
      AList.mem_lookup_iff.mp (running_before_insertBan hins ht)
    exact ha.2 (ip, entry) (by rw [hins]; rfl) (Bool.not_eq_true _ ▸ hfresh) _ hmem hip

theorem keepsBans_of_doomedExpired (s : System) (e : Clock × Action) (h : DoomedExpired s)
    (ha : InOrder s e ∧ Unraced s e) : KeepsBans N s e := by
  intro ip entry hentry hlive hover
  rcases step_bans (N := N) (s := s) (e := e) ip with hsame | ⟨⟨id, t, ht, hip⟩, -⟩ | ⟨hlift, -⟩ |
    ⟨id, entry', hrun, hins, -⟩
  · rw [hsame, hentry]
  · have hexp := isExpired_later (h id t ht ip hip entry hentry) ha.1
    rw [hexp] at hlive
    cases hlive
  · exact absurd hlift hover
  · rw [hrun, Overrides, hins] at hover
    exact absurd rfl hover

end Steps

/-- A ban stays in every interleaving in which none is put into the map between
the two steps of a removal of the same address. -/
theorem bans_kept_of_unraced (N : Networks) (config : BanConfig) (clock : Clock)
    (actions : List (Clock × Action))
    (h : Throughout (step N) (fun s e => InOrder s e ∧ Unraced s e) ⟨.new config, ∅, clock⟩ actions) :
    Throughout (step N) (KeepsBans N) ⟨.new config, ∅, clock⟩ actions := by
  apply throughout_of_invariant step_doomedExpired keepsBans_of_doomedExpired _ h
  intro id t ht
  cases ht

/-- Two callers meet: one lets in an address whose ban has run out, the other
bans the address again. -/
def config : BanConfig := ⟨true, 1, 60, 10, 1, 10, []⟩

def scanner : IpAddr := NetAddr.ip (ofOctets 198 51 100 1 5060)

def noNetworks : Networks := fun _ _ => none

def atSecond (n : Nat) : Clock := ⟨n * second, n * second⟩

/-- A manual ban of ten seconds, in its three steps. -/
def manualBan (id seconds : Nat) : List (Clock × Action) :=
  [(atSecond seconds, .start id (.ban scanner (10 * second) [])), (atSecond seconds, .run id),
    (atSecond seconds, .run id), (atSecond seconds, .run id)]

/-- The second ban is put into the map before the first is found to be expired. -/
def oneAfterTheOther : List (Clock × Action) :=
  manualBan 1 0 ++ manualBan 2 11 ++
    [(atSecond 11, .start 3 (.isBanned scanner)), (atSecond 11, .run 3)]

/-- The second ban is put into the map after the first is found to be expired,
and before it is removed. -/
def oneIntoTheOther : List (Clock × Action) :=
  manualBan 1 0 ++ [(atSecond 11, .start 3 (.isBanned scanner)), (atSecond 11, .run 3)] ++
    manualBan 2 11 ++ [(atSecond 11, .run 3)]

theorem bans_kept_of_unraced_oneAfterTheOther :
    Throughout (step noNetworks) (KeepsBans noNetworks) ⟨.new config, ∅, atSecond 0⟩
      oneAfterTheOther :=
  bans_kept_of_unraced noNetworks config (atSecond 0) oneAfterTheOther (by decide)

theorem ban_lost_oneIntoTheOther :
    ¬ Throughout (step noNetworks) (KeepsBans noNetworks) ⟨.new config, ∅, atSecond 0⟩
      oneIntoTheOther := by
  intro h
  -- the last of the eleven steps is the removal
  have hlast := h.2.2.2.2.2.2.2.2.2.2.1
  have hkept := hlast scanner ⟨scanner, [], 11 * second, 21 * second, 0, true, 1⟩ (by decide)
    (by decide) (by decide)
  revert hkept
  decide

end NixiSbc.BanRace
