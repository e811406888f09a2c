import NixiSbc.BanRows
import NixiSbc.StateRuns

namespace NixiSbc.BanStore

open KeyedTable NetAddr Bans Rfc3339 AddressParser BanRows StateRuns

/-- The rows by the text of their address, which is the primary key. -/
abbrev Store := Table (List Char) BanRow

/-- A write that has been issued and not yet been executed. -/
inductive Write
  | saveBan (row : BanRow)
  | deleteBan (ip : List Char)
  deriving DecidableEq

def Write.key : Write → List Char
  | .saveBan row => row.ip
  | .deleteBan ip => ip

def Write.apply (store : Store) : Write → Store
  | .saveBan row => store.insert row.ip row
  | .deleteBan ip => store.erase ip

/-- The issued writes stand in the order in which the memory was changed. -/
structure World where
  manager : BanManager
  store : Store
  issued : List Write
  clock : Clock

def start (config : BanConfig) (clock : Clock) : World := ⟨BanManager.new config, ∅, [], clock⟩

inductive Event
  | recordFailure (ip : IpAddr) (reason : List Char)
  | createBan (ip : List Char) (durationSecs : UInt64) (reason : List Char)
  | deleteBan (ip : List Char)
  | isBanned (ip : IpAddr)
  | cleanupExpired
  | pruneStaleWindows
  | write (i : Nat)
  deriving DecidableEq

def later (clock : Clock) (elapsed : Nat) : Clock := ⟨clock.instant + elapsed, clock.system + elapsed⟩

def issue (s : World) (m : BanManager) (w : Write) : World := { s with manager := m, issued := s.issued ++ [w] }

/-- The spawned task of `persist_ban` will write the row. -/
def persistBan (s : World) (m : BanManager) (e : BanEntry) : World := issue s m (.saveBan (rowOf e))

def afterFailure (s : World) : Struck × BanManager → World
  | (.banned e, m) => persistBan s m e
  | (_, m) => { s with manager := m }

/-- The failure of a request, or of the authentication of the management interface. -/
def recordFailure (N : Networks) (s : World) (ip : IpAddr) (reason : List Char) : World :=
  afterFailure s (Bans.recordFailure N s.manager s.clock ip reason)

def durationOf (durationSecs : UInt64) : Nat := max durationSecs.toNat 1 * second

def afterBan (s : World) : Option BanEntry × BanManager → World
  | (some e, m) => issue s m (.saveBan { rowOf e with manual := true })
  | (none, m) => { s with manager := m }

/-- A text that is no address is refused. -/
def createBan (s : World) (ip : List Char) (durationSecs : UInt64) (reason : List Char) : World :=
  (parseIp ip).elim s fun addr => afterBan s (ban s.manager s.clock addr (durationOf durationSecs) reason)

def afterUnban (s : World) (ip : List Char) : Bool × BanManager → World
  | (true, m) => issue s m (.deleteBan ip)
  | (false, m) => { s with manager := m }

def deleteBan (s : World) (ip : List Char) : World :=
  (parseIp ip).elim s fun addr => afterUnban s ip (unban s.manager addr)

/-- The write at a place among those issued is executed. -/
def execute (s : World) (i : Nat) : World :=
  match s.issued[i]? with
  | some w => { s with store := w.apply s.store, issued := s.issued.eraseIdx i }
  | none => s

/-- So many nanoseconds pass, and then the event happens. -/
def step (N : Networks) (s : World) : Nat × Event → World
  | (elapsed, e) =>
      let s := { s with clock := later s.clock elapsed }
      match e with
      | .recordFailure ip reason => recordFailure N s ip reason
      | .createBan ip durationSecs reason => createBan s ip durationSecs reason
      | .deleteBan ip => deleteBan s ip
      | .isBanned ip => { s with manager := (Bans.isBanned s.manager s.clock ip).2 }
      | .cleanupExpired => { s with manager := (Bans.cleanupExpired s.manager s.clock).2 }
      | .pruneStaleWindows => { s with manager := (Bans.pruneStaleWindows s.manager s.clock).2 }
      | .write i => execute s i

section Purpose

/-- A row of the address, in any spelling, that a start would load. -/
def Stored (s : World) (ip : IpAddr) (row : BanRow) : Prop :=
  ∃ key, s.store.lookup key = some row ∧ parseIp key = some ip ∧ nowRfc3339 s.clock < row.expiresAt

/-- An entry of the address that has not expired, to the second. -/
def Live (s : World) (ip : IpAddr) (e : BanEntry) : Prop :=
  s.manager.bans.lookup ip = some e ∧ s.clock.system < wholeSeconds e.expiresAt

def Matches (row : BanRow) (e : BanEntry) : Prop :=
  parseTs row.expiresAt = some (wholeSeconds e.expiresAt) ∧ row.offenseCount = e.offenseCount.toNat

/-- The rows are those of the live entries. -/
def Follows (s : World) : Prop :=
  ∀ ip, (∀ row, Stored s ip row → ∃ e, Live s ip e ∧ Matches row e) ∧
    ∀ e, Live s ip e → ∃ row, Stored s ip row ∧ Matches row e

/-- No ban, and no moment, lies beyond the year 9999; a ban is lifted by its
address as the program writes it; and no write overtakes one of the same address. -/
def InTurn (s : World) : Nat × Event → Prop
  | (elapsed, e) =>
      let now := (later s.clock elapsed).system
      Dated now ∧
        match e with
        | .recordFailure _ _ => Dated (now + s.manager.config.maxBanSecs.toNat * second)
        | .createBan _ durationSecs _ => Dated (now + durationOf durationSecs)
        | .deleteBan text => ∀ ip, parseIp text = some ip → text = showIp ip
        | .write i => ∀ w, s.issued[i]? = some w → ∀ w' ∈ s.issued.take i, parseIp w'.key ≠ parseIp w.key
        | _ => True

end Purpose

section Settling

/-- What a write does to the row of an address. -/
def Write.settle (ip : IpAddr) (o : Option BanRow) : Write → Option BanRow
  | .saveBan row => if row.ip = showIp ip then some row else o
  | .deleteBan text => if text = showIp ip then none else o

/-- The row that an address is left with when the issued writes have been executed in their order. -/
def eventual (s : World) (ip : IpAddr) : Option BanRow := s.issued.foldl (Write.settle ip) (s.store.lookup (showIp ip))

variable {ip : IpAddr}

theorem settle_other {w : Write} (h : w.key ≠ showIp ip) (o : Option BanRow) : w.settle ip o = o := by
  cases w with
  | saveBan row => exact if_neg h
  | deleteBan text => exact if_neg h

/-- What the row was before does not matter to a write of the address. -/
theorem settle_own {w : Write} (h : w.key = showIp ip) (o o' : Option BanRow) : w.settle ip o = w.settle ip o' := by
  cases w with
  | saveBan row =>
      have hrow : row.ip = showIp ip := h
      rw [Write.settle, Write.settle, if_pos hrow, if_pos hrow]
  | deleteBan text =>
      have htext : text = showIp ip := h
      rw [Write.settle, Write.settle, if_pos htext, if_pos htext]

theorem lookup_apply (w : Write) (store : Store) (ip : IpAddr) :
    (w.apply store).lookup (showIp ip) = w.settle ip (store.lookup (showIp ip)) := by
  cases w with
  | saveBan row =>
      rw [Write.apply, Write.settle, lookup_insert_eq]
      exact if_congr eq_comm rfl rfl
  | deleteBan text =>
      rw [Write.apply, Write.settle, lookup_erase_eq]
      exact if_congr eq_comm rfl rfl

/-- Writes of two addresses can change places. -/
theorem settle_comm {w w' : Write} (h : w.key ≠ w'.key) (o : Option BanRow) :
    w.settle ip (w'.settle ip o) = w'.settle ip (w.settle ip o) := by
  by_cases hw : w.key = showIp ip
  · have hw' : w'.key ≠ showIp ip := fun heq => h (hw.trans heq.symm)
    rw [settle_other hw', settle_other hw']
  · rw [settle_other hw, settle_other hw]

/-- A write that overtakes none of its own address may come first. -/
theorem foldl_settle_overtake {front : List Write} {w : Write} (h : ∀ w' ∈ front, w'.key ≠ w.key)
    (back : List Write) (o : Option BanRow) :
    (front ++ back).foldl (Write.settle ip) (w.settle ip o) = (front ++ w :: back).foldl (Write.settle ip) o := by
  induction front generalizing o with
  | nil => rfl
  | cons w' front ih =>
      rw [List.cons_append, List.cons_append, List.foldl_cons, List.foldl_cons,
        ← ih (fun w'' hw'' => h w'' (List.mem_cons_of_mem w' hw'')), settle_comm (h w' List.mem_cons_self)]

theorem eventual_execute {s : World} {i : Nat} {w : Write} (hw : s.issued[i]? = some w)
    (h : ∀ w' ∈ s.issued.take i, w'.key ≠ w.key) : eventual (execute s i) ip = eventual s ip := by
  obtain ⟨hi, hget⟩ := List.getElem?_eq_some_iff.mp hw
  have hsplit : s.issued = s.issued.take i ++ w :: s.issued.drop (i + 1) := by
    rw [← hget, ← List.drop_eq_getElem_cons hi, List.take_append_drop]
  have hrest : s.issued.eraseIdx i = s.issued.take i ++ s.issued.drop (i + 1) := List.eraseIdx_eq_take_drop_succ _ _
  rw [execute, hw]
  rw [eventual, eventual]
  dsimp only
  rw [hrest, lookup_apply, foldl_settle_overtake h, ← hsplit]

end Settling

section Invariant

variable {N : Networks} {s : World} {m : BanManager}

/-- Memory, the issued writes and the store tell the same story; a row that
memory has no entry for has expired. -/
structure Mirrors (s : World) : Prop where
  keys : ∀ key row, s.store.lookup key = some row → ∃ ip, key = showIp ip
  issued : ∀ w ∈ s.issued, ∃ ip, w.key = showIp ip
  live : ∀ ip e, s.manager.bans.lookup ip = some e → Dated e.expiresAt ∧ eventual s ip = some (rowOf e)
  gone : ∀ ip row, eventual s ip = some row → s.manager.bans.lookup ip = none →
    ∃ e, row = rowOf e ∧ Dated e.expiresAt ∧ e.expiresAt ≤ s.clock.system

/-- The entries are as they were, but some that have expired may be missing. -/
def Fades (now : Clock) (m m' : BanManager) : Prop :=
  ∀ ip, m'.bans.lookup ip = m.bans.lookup ip ∨
    m'.bans.lookup ip = none ∧ ∃ e, m.bans.lookup ip = some e ∧ e.expiresAt ≤ now.system

theorem fades_refl (now : Clock) (m : BanManager) : Fades now m m := fun _ => .inl rfl

theorem fades_isBanned (m : BanManager) (now : Clock) (ip : IpAddr) : Fades now m (Bans.isBanned m now ip).2 := by
  intro ip'
  rw [Bans.isBanned]
  split
  next =>
    split
    next => exact .inl rfl
    next hlook =>
      obtain ⟨e, hlookup, hexpired⟩ := look_eq_expired hlook
      rw [removeBan, lookup_erase_eq]
      split
      next heq =>
        rw [heq]
        exact .inr ⟨rfl, e, hlookup, of_decide_eq_true hexpired⟩
      next => exact .inl rfl
    next => exact .inl rfl
  next => exact .inl rfl

theorem fades_cleanupExpired (m : BanManager) (now : Clock) : Fades now m (Bans.cleanupExpired m now).2 := by
  intro ip
  rw [Bans.cleanupExpired, lookup_sweep]
  cases hlookup : m.bans.lookup ip with
  | none => exact .inl rfl
  | some e =>
      rw [Option.bind_some]
      split
      next hexpired => exact .inr ⟨rfl, e, rfl, of_decide_eq_true hexpired⟩
      next => exact .inl rfl

theorem Mirrors.fade (h : Mirrors s) (hf : Fades s.clock s.manager m) : Mirrors { s with manager := m } := by
  refine ⟨h.keys, h.issued, fun ip e hlookup => ?_, fun ip row hrow hnone => ?_⟩
  · rcases hf ip with hsame | ⟨hnone, -⟩
    · exact h.live ip e (hsame.symm.trans hlookup)
    · cases hnone.symm.trans hlookup
  · rcases hf ip with hsame | ⟨-, e, hlookup, hexpired⟩
    · exact h.gone ip row hrow (hsame.symm.trans hnone)
    · obtain ⟨hdated, hkept⟩ := h.live ip e hlookup
      exact ⟨e, Option.some.inj (hrow.symm.trans hkept), hdated, hexpired⟩

theorem Mirrors.later (h : Mirrors s) (elapsed : Nat) : Mirrors { s with clock := later s.clock elapsed } :=
  ⟨h.keys, h.issued, h.live, fun ip row hrow hnone =>
    let ⟨e, heq, hdated, hexpired⟩ := h.gone ip row hrow hnone
    ⟨e, heq, hdated, Nat.le_trans hexpired (Nat.le_add_right _ _)⟩⟩

theorem eventual_issue (s : World) (m : BanManager) (w : Write) (ip : IpAddr) :
    eventual (issue s m w) ip = w.settle ip (eventual s ip) := by
  rw [issue, eventual, List.foldl_append]
  rfl

theorem issued_issue {w : Write} (h : Mirrors s) (hw : ∃ ip, w.key = showIp ip) :
    ∀ w' ∈ (issue s m w).issued, ∃ ip, w'.key = showIp ip := by
  intro w' hw'
  rcases List.mem_append.mp hw' with hold | hnew
  · exact h.issued w' hold
  · exact (List.mem_singleton.mp hnew) ▸ hw

/-- A ban and its row. -/
theorem Mirrors.banned (h : Mirrors s) {e : BanEntry} (he : Dated e.expiresAt) {m₀ : BanManager}
    (hf : Fades s.clock s.manager m₀) (hm : ∀ ip, m.bans.lookup ip = (m₀.bans.insert e.ip e).lookup ip) :
    Mirrors (issue s m (.saveBan (rowOf e))) := by
  have hfaded := h.fade hf
  refine ⟨h.keys, issued_issue h ⟨e.ip, rfl⟩, fun ip e' hlookup => ?_, fun ip row hrow hnone => ?_⟩
  · rw [eventual_issue]
    rw [issue, hm, lookup_insert_eq] at hlookup
    split at hlookup
    next heq =>
      cases hlookup
      exact ⟨he, if_pos (congrArg showIp heq.symm)⟩
    next hne =>
      have hother : (Write.saveBan (rowOf e)).key ≠ showIp ip := fun heq => hne (AddressTexts.showIp_inj heq).symm
      rw [settle_other hother]
      exact hfaded.live ip e' hlookup
  · rw [eventual_issue] at hrow
    rw [issue, hm, lookup_insert_eq] at hnone
    split at hnone
    next => cases hnone
    next hne =>
      have hother : (Write.saveBan (rowOf e)).key ≠ showIp ip := fun heq => hne (AddressTexts.showIp_inj heq).symm
      rw [settle_other hother] at hrow
      exact hfaded.gone ip row hrow hnone

/-- A ban that is lifted, and the removal of its row. -/
theorem Mirrors.unbanned (h : Mirrors s) (ip : IpAddr) :
    Mirrors (issue s (removeBan s.manager ip) (.deleteBan (showIp ip))) := by
  refine ⟨h.keys, issued_issue h ⟨ip, rfl⟩, fun ip' e hlookup => ?_, fun ip' row hrow hnone => ?_⟩
  · rw [eventual_issue]
    rw [issue, removeBan, lookup_erase_eq] at hlookup
    split at hlookup
    next => cases hlookup
    next hne =>
      have hother : (Write.deleteBan (showIp ip)).key ≠ showIp ip' := fun heq => hne (AddressTexts.showIp_inj heq).symm
      rw [settle_other hother]
      exact h.live ip' e hlookup
  · rw [eventual_issue] at hrow
    rw [issue, removeBan, lookup_erase_eq] at hnone
    split at hnone
    next heq =>
      have hdeleted : (Write.deleteBan (showIp ip)).settle ip' (eventual s ip') = none :=
        if_pos (congrArg showIp heq.symm)
      cases hdeleted.symm.trans hrow
    next hne =>
      have hother : (Write.deleteBan (showIp ip)).key ≠ showIp ip' := fun heq => hne (AddressTexts.showIp_inj heq).symm
      rw [settle_other hother] at hrow
      exact h.gone ip' row hrow hnone

end Invariant

section Steps

variable {N : Networks} {s : World}

theorem banSecs_le (config : BanConfig) (offense : UInt32) : banSecs config offense ≤ config.maxBanSecs.toNat :=
  Nat.min_le_right _ _

/-- A punishment adds the ban to the table, unless its end overflows. -/
theorem punish_cases (m : BanManager) (now : Clock) (ip : IpAddr) (reason : List Char) (count : UInt32) :
    (∃ e m', punish m now ip reason count = (.banned e, m') ∧ m'.bans = m.bans.insert e.ip e ∧
      e.expiresAt ≤ now.system + m.config.maxBanSecs.toNat * second) ∨
    ∃ m', punish m now ip reason count = (.panicked, m') ∧ m'.bans = m.bans := by
  have hbans : (insertOffense (removeFailures m ip) now ip (nextOffense m ip)).bans = m.bans := rfl
  have hconfig : (insertOffense (removeFailures m ip) now ip (nextOffense m ip)).config = m.config := rfl
  simp only [punish]
  generalize nextOffense m ip = offense at hbans hconfig ⊢
  generalize insertOffense (removeFailures m ip) now ip offense = m' at hbans hconfig ⊢
  cases hearned : earned m'.config now ip reason count offense with
  | none =>
      exact .inr ⟨m', rfl, hbans⟩
  | some e =>
      have hentry : e.ip = ip ∧ e.expiresAt ≤ now.system + m.config.maxBanSecs.toNat * second := by
        obtain ⟨expiresAt, hadd, rfl⟩ := Option.map_eq_some_iff.mp hearned
        refine ⟨rfl, ?_⟩
        have hle : now.system + banSecs m'.config offense * second ≤
            now.system + m'.config.maxBanSecs.toNat * second :=
          Nat.add_le_add_left (Nat.mul_le_mul_right second (banSecs_le _ _)) now.system
        rw [hconfig] at hle
        rw [addSecs] at hadd
        split at hadd
        next =>
          rw [← Option.some.inj hadd, hconfig]
          exact hle
        next => cases hadd
      refine .inl ⟨e, insertBan m' ip e, rfl, ?_, hentry.2⟩
      rw [insertBan, hbans, hentry.1]

/-- What a failure comes to: nothing but entries that fade, or a new ban. -/
theorem recordFailure_cases (N : Networks) (m : BanManager) (now : Clock) (ip : IpAddr) (reason : List Char) :
    (∃ e m₀ m', Bans.recordFailure N m now ip reason = (.banned e, m') ∧ Fades now m m₀ ∧
      m'.bans = m₀.bans.insert e.ip e ∧ e.expiresAt ≤ now.system + m.config.maxBanSecs.toNat * second) ∨
    ∃ struck m', Bans.recordFailure N m now ip reason = (struck, m') ∧ (∀ e, struck ≠ .banned e) ∧ Fades now m m' := by
  have hfaded := fades_isBanned m now ip
  have hconfig : (Bans.isBanned m now ip).2.config = m.config := by
    rw [Bans.isBanned]
    split
    next =>
      split
      next => rfl
      next => rfl
      next => rfl
    next => rfl
  rw [Bans.recordFailure]
  split
  next => exact .inr ⟨_, _, rfl, nofun, fades_refl now m⟩
  next =>
    dsimp only
    generalize Bans.isBanned m now ip = looked at hfaded hconfig
    split
    next => exact .inr ⟨_, _, rfl, nofun, hfaded⟩
    next =>
      have hstruck : (strike looked.2 now ip).2.bans = looked.2.bans := rfl
      have hstruckConfig : (strike looked.2 now ip).2.config = looked.2.config := rfl
      have hpassed : Fades now m (strike looked.2 now ip).2 := hfaded
      generalize strike looked.2 now ip = struck at hstruck hstruckConfig hpassed
      split
      next => exact .inr ⟨_, _, rfl, nofun, hpassed⟩
      next =>
        rcases punish_cases struck.2 now ip reason struck.1 with ⟨e, m', heq, hbans, hle⟩ | ⟨m', heq, hbans⟩
        · rw [hstruckConfig, hconfig] at hle
          exact .inl ⟨e, struck.2, m', heq, hpassed, hbans, hle⟩
        · refine .inr ⟨_, m', heq, nofun, fun ip' => ?_⟩
          rw [hbans]
          exact hpassed ip'

theorem recordFailure_mirrors (h : Mirrors s) (ip : IpAddr) (reason : List Char)
    (hdated : Dated (s.clock.system + s.manager.config.maxBanSecs.toNat * second)) :
    Mirrors (recordFailure N s ip reason) := by
  rw [recordFailure]
  rcases recordFailure_cases N s.manager s.clock ip reason with
    ⟨e, m₀, m', heq, hfaded, hbans, hle⟩ | ⟨struck, m', heq, hnone, hfaded⟩
  · rw [heq]
    exact h.banned (dated_le hdated hle) hfaded fun ip' => by rw [hbans]
  · rw [heq]
    cases struck with
    | passed => exact h.fade hfaded
    | banned e => exact absurd rfl (hnone e)
    | panicked => exact h.fade hfaded

theorem ban_cases (m : BanManager) (now : Clock) (ip : IpAddr) (duration : Nat) (reason : List Char) :
    (∃ e, ban m now ip duration reason = (some e, insertBan m ip e) ∧ e.ip = ip ∧ e.manual = true ∧
      e.expiresAt = now.system + duration) ∨ ban m now ip duration reason = (none, m) := by
  rw [ban]
  cases hentry : manualEntry now ip duration reason with
  | none => exact .inr rfl
  | some e =>
      rw [manualEntry] at hentry
      split at hentry
      next =>
        cases hentry
        exact .inl ⟨_, rfl, rfl, rfl, rfl⟩
      next => cases hentry

theorem createBan_mirrors (h : Mirrors s) (text : List Char) (durationSecs : UInt64) (reason : List Char)
    (hdated : Dated (s.clock.system + durationOf durationSecs)) : Mirrors (createBan s text durationSecs reason) := by
  rw [createBan]
  cases parseIp text with
  | none => exact h
  | some ip =>
      rw [Option.elim_some]
      rcases ban_cases s.manager s.clock ip (durationOf durationSecs) reason with
        ⟨e, hban, rfl, hmanual, hexpires⟩ | hban
      · have hrow : { rowOf e with manual := true } = rowOf e := by
          rw [rowOf, hmanual]
        rw [hban, afterBan, hrow]
        exact h.banned (hexpires ▸ hdated) (fades_refl _ _) fun _ => rfl
      · rw [hban]
        exact h.fade (fades_refl _ _)

theorem deleteBan_mirrors (h : Mirrors s) {text : List Char} (htext : ∀ ip, parseIp text = some ip → text = showIp ip) :
    Mirrors (deleteBan s text) := by
  rw [deleteBan]
  cases hip : parseIp text with
  | none => exact h
  | some ip =>
      rw [Option.elim_some, htext ip hip, unban]
      cases hlookup : s.manager.bans.lookup ip with
      | some e => exact h.unbanned ip
      | none =>
          refine h.fade fun ip' => ?_
          rw [removeBan, lookup_erase_eq]
          split
          next heq => exact .inl (heq ▸ hlookup.symm)
          next => exact .inl rfl

theorem execute_mirrors (h : Mirrors s) {i : Nat}
    (hturn : ∀ w, s.issued[i]? = some w → ∀ w' ∈ s.issued.take i, parseIp w'.key ≠ parseIp w.key) :
    Mirrors (execute s i) := by
  cases hw : s.issued[i]? with
  | none =>
      rw [execute, hw]
      exact h
  | some w =>
      have hsame (ip : IpAddr) : eventual (execute s i) ip = eventual s ip :=
        eventual_execute hw fun w' hw' heq => hturn w hw w' hw' (congrArg parseIp heq)
      obtain ⟨ip, hkey⟩ := h.issued w (List.mem_of_getElem? hw)
      have hmanager : (execute s i).manager = s.manager ∧ (execute s i).clock = s.clock := by
        rw [execute, hw]
        exact ⟨rfl, rfl⟩
      refine ⟨fun key row hrow => ?_, fun w' hw' => ?_, fun ip' e hlookup => ?_, fun ip' row hrow hnone => ?_⟩
      · rw [execute, hw] at hrow
        dsimp only at hrow
        cases w with
        | saveBan saved =>
            rw [Write.apply, lookup_insert_eq] at hrow
            split at hrow
            next heq => exact ⟨ip, heq.trans hkey⟩
            next => exact h.keys key row hrow
        | deleteBan text =>
            rw [Write.apply, lookup_erase_eq] at hrow
            split at hrow
            next => cases hrow
            next => exact h.keys key row hrow
      · rw [execute, hw] at hw'
        exact h.issued w' ((List.eraseIdx_sublist _ _).subset hw')
      · rw [hsame]
        exact h.live ip' e (hmanager.1 ▸ hlookup)
      · rw [hmanager.2]
        exact h.gone ip' row (hsame ip' ▸ hrow) (hmanager.1 ▸ hnone)

theorem step_mirrors (h : Mirrors s) (e : Nat × Event) (hturn : InTurn s e) : Mirrors (step N s e) := by
  obtain ⟨elapsed, e⟩ := e
  have hlater := h.later elapsed
  obtain ⟨-, hevent⟩ := hturn
  cases e with
  | recordFailure ip reason => exact recordFailure_mirrors hlater ip reason hevent
  | createBan text durationSecs reason => exact createBan_mirrors hlater text durationSecs reason hevent
  | deleteBan text => exact deleteBan_mirrors hlater hevent
  | isBanned ip => exact hlater.fade (fades_isBanned _ _ ip)
  | cleanupExpired => exact hlater.fade (fades_cleanupExpired _ _)
  | pruneStaleWindows => exact hlater.fade fun _ => .inl rfl
  | write i => exact execute_mirrors hlater hevent

/-- When all writes have been executed the rows are those of the live entries. -/
theorem Mirrors.follows (h : Mirrors s) (hnow : Dated s.clock.system) (hdone : s.issued = []) : Follows s := by
  have heventual (ip : IpAddr) : eventual s ip = s.store.lookup (showIp ip) := by
    rw [eventual, hdone]
    rfl
  have hactive {e : BanEntry} (he : Dated e.expiresAt) :
      nowRfc3339 s.clock < (rowOf e).expiresAt ↔ s.clock.system < wholeSeconds e.expiresAt := by
    rw [lt_wholeSeconds_iff]
    exact civil_text_lt_iff hnow he
  have hmatches {e : BanEntry} (he : Dated e.expiresAt) : Matches (rowOf e) e := ⟨parseTs_civil he, rfl⟩
  intro ip
  refine ⟨fun row hstored => ?_, fun e hlive => ?_⟩
  · obtain ⟨key, hrow, hkey, hlater⟩ := hstored
    obtain ⟨ip', rfl⟩ := h.keys key row hrow
    obtain rfl : ip' = ip := Option.some.inj ((parseIp_showIp ip').symm.trans hkey)
    rw [← heventual] at hrow
    cases hlookup : s.manager.bans.lookup ip' with
    | none =>
        obtain ⟨e, rfl, he, hexpired⟩ := h.gone ip' row hrow hlookup
        have hlt := (hactive he).mp hlater
        exact absurd (Nat.lt_of_lt_of_le hlt (wholeSeconds_le _)) (Nat.not_lt.mpr hexpired)
    | some e =>
        obtain ⟨he, hkept⟩ := h.live ip' e hlookup
        obtain rfl : row = rowOf e := Option.some.inj (hrow.symm.trans hkept)
        exact ⟨e, ⟨hlookup, (hactive he).mp hlater⟩, hmatches he⟩
  · obtain ⟨hlookup, hlater⟩ := hlive
    obtain ⟨he, hkept⟩ := h.live ip e hlookup
    rw [heventual] at hkept
    exact ⟨rowOf e, ⟨showIp ip, hkept, parseIp_showIp ip, (hactive he).mpr hlater⟩, hmatches he⟩

theorem afterFailure_clock (s : World) (r : Struck × BanManager) : (afterFailure s r).clock = s.clock := by
  obtain ⟨struck, m⟩ := r
  cases struck with
  | passed => rfl
  | banned e => rfl
  | panicked => rfl

theorem afterBan_clock (s : World) (r : Option BanEntry × BanManager) : (afterBan s r).clock = s.clock := by
  obtain ⟨o, m⟩ := r
  cases o with
  | none => rfl
  | some e => rfl

theorem afterUnban_clock (s : World) (ip : List Char) (r : Bool × BanManager) : (afterUnban s ip r).clock = s.clock := by
  obtain ⟨removed, m⟩ := r
  cases removed with
  | true => rfl
  | false => rfl

theorem step_clock (N : Networks) (s : World) (e : Nat × Event) : (step N s e).clock = later s.clock e.1 := by
  obtain ⟨elapsed, e⟩ := e
  cases e with
  | recordFailure ip reason => rw [step, recordFailure, afterFailure_clock]
  | createBan text durationSecs reason =>
      rw [step, createBan]
      cases parseIp text with
      | none => rfl
      | some ip => rw [Option.elim_some, afterBan_clock]
  | deleteBan text =>
      rw [step, deleteBan]
      cases parseIp text with
      | none => rfl
      | some ip => rw [Option.elim_some, afterUnban_clock]
  | isBanned ip => rfl
  | cleanupExpired => rfl
  | pruneStaleWindows => rfl
  | write i =>
      rw [step, execute]
      dsimp only
      cases s.issued[i]? with
      | none => rfl
      | some w => rfl

theorem start_mirrors (config : BanConfig) (clock : Clock) : Mirrors (start config clock) := by
  refine ⟨fun key row h => ?_, fun w hw => ?_, fun ip e h => ?_, fun ip row h _ => ?_⟩
  · cases h
  · cases hw
  · cases h
  · cases h

end Steps

/-- In every run of failures, bans, unbans and writes in which the writes of
each address are executed in turn, the store follows the memory whenever no
write is left. -/
theorem store_follows_memory (N : Networks) (config : BanConfig) {clock : Clock} (hclock : Dated clock.system)
    {events : List (Nat × Event)} (hturn : Throughout (step N) InTurn (start config clock) events)
    (hdone : (events.foldl (step N) (start config clock)).issued = []) :
    Follows (events.foldl (step N) (start config clock)) := by
  have hrun : Mirrors (events.foldl (step N) (start config clock)) ∧
      Dated (events.foldl (step N) (start config clock)).clock.system := by
    refine invariant_run (I := fun s => Mirrors s ∧ Dated s.clock.system) (fun s e hs hs' => ?_)
      ⟨start_mirrors config clock, hclock⟩ hturn
    refine ⟨step_mirrors hs.1 e hs', ?_⟩
    rw [step_clock]
    exact hs'.1
  exact hrun.1.follows hrun.2 hdone

section Sample

instance (s : World) : ∀ e, Decidable (InTurn s e)
  | (elapsed, .recordFailure ip reason) =>
      inferInstanceAs (Decidable (Dated _ ∧ Dated _))
  | (elapsed, .createBan text durationSecs reason) =>
      inferInstanceAs (Decidable (Dated _ ∧ Dated _))
  | (elapsed, .deleteBan text) =>
      decidable_of_iff (Dated (later s.clock elapsed).system ∧ (parseIp text).all (fun ip => text = showIp ip) = true) <| by
        simp [InTurn, Option.all_eq_true]
  | (elapsed, .write i) =>
      decidable_of_iff (Dated (later s.clock elapsed).system ∧ (s.issued[i]?).all (fun w =>
        (s.issued.take i).all fun w' => parseIp w'.key ≠ parseIp w.key) = true) <| by
        simp [InTurn, Option.all_eq_true]
  | (elapsed, .isBanned _) => inferInstanceAs (Decidable (Dated _ ∧ True))
  | (elapsed, .cleanupExpired) => inferInstanceAs (Decidable (Dated _ ∧ True))
  | (elapsed, .pruneStaleWindows) => inferInstanceAs (Decidable (Dated _ ∧ True))

/-- One failure is an offense, and bans for an hour. -/
def strict : BanConfig := ⟨true, 1, 60, 3600, 1, 3600, []⟩

def noNetworks : Networks := fun _ _ => none

/-- The beginning of 2026. -/
def newYear : Clock := ⟨0, 1767225600 * second⟩

def scanner : IpAddr := .v4 #v[198, 51, 100, 1]

def host : IpAddr := longBan.ip

def ran (events : List (Nat × Event)) : World := events.foldl (step noNetworks) (start strict newYear)

/-- The host is banned in another spelling than it is lifted in. -/
def inTurn : List (Nat × Event) :=
  [(5, .recordFailure scanner "REGISTER".toList), (second, .createBan "2001:DB8:0::1".toList 60 "manual".toList),
    (0, .write 1), (0, .deleteBan "2001:db8::1".toList), (7, .write 0), (0, .write 0)]

theorem store_follows_memory_inTurn : Follows (ran inTurn) :=
  store_follows_memory noNetworks strict (by decide +kernel) (by decide +kernel) (by decide +kernel)

theorem not_follows_of_row {s : World} (key : List Char) (ip : IpAddr)
    (hrow : (s.store.lookup key).any (fun row => nowRfc3339 s.clock < row.expiresAt) = true)
    (hkey : parseIp key = some ip) (hfree : s.manager.bans.lookup ip = none) : ¬ Follows s := by
  intro h
  obtain ⟨row, hlookup, hlater⟩ := (Option.any_eq_true _ _).mp hrow
  obtain ⟨e, hlive, -⟩ := (h ip).1 row ⟨key, hlookup, hkey, of_decide_eq_true hlater⟩
  cases hfree.symm.trans hlive.1

theorem not_follows_of_entry {s : World} (ip : IpAddr)
    (hentry : (s.manager.bans.lookup ip).any (fun e => s.clock.system < wholeSeconds e.expiresAt) = true)
    (hrows : s.store.entries.all (fun row => !decide (nowRfc3339 s.clock < row.2.expiresAt)) = true) : ¬ Follows s := by
  intro h
  obtain ⟨e, hlookup, hlater⟩ := (Option.any_eq_true _ _).mp hentry
  obtain ⟨row, ⟨key, hrow, -, hactive⟩, -⟩ := (h ip).2 e ⟨hlookup, of_decide_eq_true hlater⟩
  have hmem := List.all_eq_true.mp hrows _ (AList.mem_lookup_iff.mp hrow)
  simp [hactive] at hmem

/-- The write of an automatic ban is executed after the ban was lifted. -/
def lateWrite : List (Nat × Event) :=
  [(0, .recordFailure scanner "REGISTER".toList), (0, .deleteBan "198.51.100.1".toList), (0, .write 1), (0, .write 0)]

/-- The ban is lifted in another spelling. -/
def otherSpelling : List (Nat × Event) :=
  [(0, .createBan "2001:db8::1".toList 60 "manual".toList), (0, .write 0), (0, .deleteBan "2001:DB8::1".toList),
    (0, .write 0)]

/-- The ban lasts eight thousand years. -/
def longBan : List (Nat × Event) :=
  [(0, .createBan "198.51.100.1".toList 252288000000 "manual".toList), (0, .write 0)]

/-- Nothing is left to write, and yet a lifted ban would come back after a start,
or a ban that stands would not. -/
theorem store_forgets_and_resurrects :
    ((ran lateWrite).issued = [] ∧ ¬ Follows (ran lateWrite)) ∧
      ((ran otherSpelling).issued = [] ∧ ¬ Follows (ran otherSpelling)) ∧
      (ran longBan).issued = [] ∧ ¬ Follows (ran longBan) := by
  refine ⟨⟨by decide +kernel, ?_⟩, ⟨by decide +kernel, ?_⟩, by decide +kernel, ?_⟩
  · exact not_follows_of_row "198.51.100.1".toList scanner (by decide +kernel) (by decide +kernel) (by decide +kernel)
  · exact not_follows_of_row "2001:db8::1".toList host (by decide +kernel) (by decide +kernel) (by decide +kernel)
  · exact not_follows_of_entry scanner (by decide +kernel) (by decide +kernel)

end Sample

end NixiSbc.BanStore
