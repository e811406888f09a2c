import Mathlib
import NixiSbc.AddressParser
import NixiSbc.Rfc3339

namespace NixiSbc.BanRows

open KeyedTable NetAddr Bans Rfc3339 AddressParser

structure BanRow where
  ip : List Char
  reason : List Char
  bannedAt : List Char
  expiresAt : List Char
  failures : Int
  manual : Bool
  offenseCount : Int
  deriving DecidableEq

/-- The row that is written for a ban. -/
def rowOf (e : BanEntry) : BanRow where
  ip := showIp e.ip
  reason := e.reason
  bannedAt := systemtimeRfc3339 e.bannedAt
  expiresAt := systemtimeRfc3339 e.expiresAt
  failures := e.failures.toNat
  manual := e.manual
  offenseCount := e.offenseCount.toNat

def banRowToEntry (row : BanRow) : Option BanEntry :=
  (parseIp row.ip).bind fun ip =>
    (parseTs row.bannedAt).bind fun bannedAt =>
      (parseTs row.expiresAt).map fun expiresAt => {
        ip := ip
        reason := row.reason
        bannedAt := bannedAt
        expiresAt := expiresAt
        failures := UInt32.ofInt row.failures
        manual := row.manual
        offenseCount := UInt32.ofInt row.offenseCount }

def loadActiveBans (rows : List BanRow) (now : List Char) : List BanRow := rows.filter fun r => now < r.expiresAt

/-- What a start does with the rows of the store. -/
def restoreBans (m : BanManager) (now : Clock) (rows : List BanRow) : BanManager :=
  ((loadActiveBans rows (nowRfc3339 now)).filterMap banRowToEntry).foldl (restore · now) m

/-- Down to whole seconds. -/
def wholeSeconds (t : Nat) : Nat := t / second * second

def rounded (e : BanEntry) : BanEntry :=
  { e with bannedAt := wholeSeconds e.bannedAt, expiresAt := wholeSeconds e.expiresAt }

/-- Before the year 10000. -/
def Dated (t : Nat) : Prop := t / second < endOf9999

instance (t : Nat) : Decidable (Dated t) := inferInstanceAs (Decidable (t / second < endOf9999))

section Rows

theorem second_pos : 0 < second := by decide

theorem ofInt_toNat (n : UInt32) : UInt32.ofInt n.toNat = n := by
  apply UInt32.toNat_inj.mp
  have h := n.toNat_lt
  rw [UInt32.ofInt, UInt32.toNat_ofNat']
  omega

theorem banRowToEntry_of_parse {e : BanEntry} (hfrom : parseTs (rowOf e).bannedAt = some (wholeSeconds e.bannedAt))
    (hto : parseTs (rowOf e).expiresAt = some (wholeSeconds e.expiresAt)) :
    banRowToEntry (rowOf e) = some (rounded e) := by
  have hip : parseIp (rowOf e).ip = some e.ip := parseIp_showIp e.ip
  have hfailures : UInt32.ofInt (rowOf e).failures = e.failures := ofInt_toNat e.failures
  have hoffense : UInt32.ofInt (rowOf e).offenseCount = e.offenseCount := ofInt_toNat e.offenseCount
  rw [banRowToEntry, hip, Option.bind_some, hfrom, Option.bind_some, hto, Option.map_some, hfailures, hoffense]
  rfl

theorem banRowToEntry_rowOf {e : BanEntry} (hbanned : Dated e.bannedAt) (hexpires : Dated e.expiresAt) :
    banRowToEntry (rowOf e) = some (rounded e) :=
  banRowToEntry_of_parse (parseTs_civil hbanned) (parseTs_civil hexpires)

theorem wholeSeconds_le (t : Nat) : wholeSeconds t ≤ t := Nat.div_mul_le_self t second

theorem dated_le {t t' : Nat} (h : Dated t') (hle : t ≤ t') : Dated t :=
  Nat.lt_of_le_of_lt (Nat.div_le_div_right hle) h

theorem wholeSeconds_lt_iff {t t' : Nat} : wholeSeconds t < wholeSeconds t' ↔ t / second < t' / second :=
  Nat.mul_lt_mul_right second_pos

/-- A time is before a whole second just when its own second is. -/
theorem lt_wholeSeconds_iff {t t' : Nat} : t < wholeSeconds t' ↔ t / second < t' / second :=
  (Nat.div_lt_iff_lt_mul second_pos).symm

theorem rendered_lt_iff {t t' : Nat} (h : Dated t) (h' : Dated t') :
    systemtimeRfc3339 t < systemtimeRfc3339 t' ↔ wholeSeconds t < wholeSeconds t' := by
  rw [wholeSeconds_lt_iff]
  exact civil_text_lt_iff h h'

theorem loadActiveBans_rows {entries : List BanEntry} {now : Clock} (hnow : Dated now.system)
    (h : ∀ e ∈ entries, Dated e.expiresAt) :
    loadActiveBans (entries.map rowOf) (nowRfc3339 now) =
      (entries.filter fun e => now.system < wholeSeconds e.expiresAt).map rowOf := by
  rw [loadActiveBans, List.filter_map]
  congr 1
  apply List.filter_congr
  intro e he
  rw [Function.comp_apply, decide_eq_decide, lt_wholeSeconds_iff]
  exact civil_text_lt_iff hnow (h e he)

end Rows

section Restart

variable {m : BanManager} {now : Clock}

/-- Entries that have not expired come into the table one after the other. -/
theorem bans_foldl_restore {entries : List BanEntry} (h : ∀ e ∈ entries, now.system < e.expiresAt) :
    (entries.foldl (restore · now) m).bans = entries.foldl (fun t e => t.insert e.ip e) m.bans := by
  induction entries generalizing m with
  | nil => rfl
  | cons e entries ih =>
      have hlive : e.isExpired now = false := decide_eq_false (Nat.not_le.mpr (h e List.mem_cons_self))
      have hinsert : (restore m now e).bans = m.bans.insert e.ip e := by
        rw [restore, hlive]
        rfl
      rw [List.foldl_cons, List.foldl_cons, ih fun e' he' => h e' (List.mem_cons_of_mem e he'), hinsert]

end Restart

/-- Bans survive a restart: a row is read back as the entry with its times down
to whole seconds, texts of times are in the order of the times, and a start
brings back just the entries that have not expired by then. -/
theorem bans_survive_restart (config : BanConfig) :
    (∀ e : BanEntry, Dated e.bannedAt → Dated e.expiresAt → banRowToEntry (rowOf e) = some (rounded e)) ∧
      (∀ t t', Dated t → Dated t' →
        (systemtimeRfc3339 t < systemtimeRfc3339 t' ↔ wholeSeconds t < wholeSeconds t')) ∧
      ∀ (entries : List BanEntry) (now : Clock), Dated now.system →
        (∀ e ∈ entries, Dated e.bannedAt ∧ Dated e.expiresAt) →
          (loadActiveBans (entries.map rowOf) (nowRfc3339 now)).filterMap banRowToEntry =
            (entries.filter fun e => now.system < wholeSeconds e.expiresAt).map rounded ∧
          ((entries.map (·.ip)).Nodup → ∀ ip e',
            (restoreBans (BanManager.new config) now (entries.map rowOf)).bans.lookup ip = some e' ↔
              ∃ e ∈ entries, now.system < wholeSeconds e.expiresAt ∧ e.ip = ip ∧ rounded e = e') := by
  refine ⟨fun e => banRowToEntry_rowOf, fun t t' => rendered_lt_iff, fun entries now hnow hdated => ?_⟩
  have hloaded := loadActiveBans_rows hnow fun e he => (hdated e he).2
  have hread : (loadActiveBans (entries.map rowOf) (nowRfc3339 now)).filterMap banRowToEntry =
      (entries.filter fun e => now.system < wholeSeconds e.expiresAt).map rounded := by
    rw [hloaded, List.filterMap_map, ← List.filterMap_eq_map]
    apply List.filterMap_congr
    intro e he
    have hd := hdated e (List.mem_filter.mp he).1
    exact banRowToEntry_rowOf hd.1 hd.2
  refine ⟨hread, fun hnodup ip e' => ?_⟩
  have hlive : ∀ e ∈ (entries.filter fun e => now.system < wholeSeconds e.expiresAt).map rounded,
      now.system < e.expiresAt := by
    intro e he
    obtain ⟨e, hmem, rfl⟩ := List.mem_map.mp he
    exact of_decide_eq_true (List.mem_filter.mp hmem).2
  have hkeys : (((entries.filter fun e => now.system < wholeSeconds e.expiresAt).map rounded).map
      (·.ip)).Nodup := by
    rw [List.map_map]
    exact hnodup.sublist (List.filter_sublist.map fun e : BanEntry => e.ip)
  have hempty : (BanManager.new config).bans = ∅ := rfl
  have hlookup := @lookup_foldl_insert IpAddr BanEntry _ BanEntry (·.ip) (fun e => e) _ hkeys ip e'
  rw [restoreBans, hread, bans_foldl_restore hlive, hempty, hlookup]
  simp only [List.mem_map, List.mem_filter, decide_eq_true_eq]
  constructor
  · rintro ⟨row, ⟨e, ⟨he, hnow⟩, rfl⟩, rfl, rfl⟩
    exact ⟨e, he, hnow, rfl, rfl⟩
  · rintro ⟨e, he, hnow, rfl, rfl⟩
    exact ⟨rounded e, ⟨e, ⟨he, hnow⟩, rfl⟩, rfl, rfl⟩

section Sample

def config : BanConfig := ⟨true, 5, 60, 3600, 4, 86400, []⟩

/-- Banned on the last day of February 2024, until the last day of 9999. -/
def longBan : BanEntry where
  ip := .v6 #v[0x20, 0x01, 0x0d, 0xb8, 0, 0, 0, 0, 0, 0, 0, 0, 0, 0, 0, 1]
  reason := "scan".toList
  bannedAt := 1709164800 * second + 7
  expiresAt := (endOf9999 - 1) * second + 999999999
  failures := 4294967295
  manual := false
  offenseCount := 3

def leapDay : Clock := ⟨0, 1709210096 * second⟩

example : (rowOf longBan).bannedAt = "2024-02-29T00:00:00Z".toList := by decide +kernel

theorem bans_survive_restart_longBan :
    banRowToEntry (rowOf longBan) = some (rounded longBan) ∧
      (systemtimeRfc3339 longBan.bannedAt < systemtimeRfc3339 longBan.expiresAt ↔
        wholeSeconds longBan.bannedAt < wholeSeconds longBan.expiresAt) ∧
      (restoreBans (BanManager.new config) leapDay [rowOf longBan]).bans.lookup longBan.ip = some (rounded longBan) := by
  have hbanned : Dated longBan.bannedAt := by decide
  have hexpires : Dated longBan.expiresAt := by decide
  have h := bans_survive_restart config
  refine ⟨h.1 _ hbanned hexpires, h.2.1 _ _ hbanned hexpires, ?_⟩
  have hone : ∀ e ∈ [longBan], Dated e.bannedAt ∧ Dated e.expiresAt := by simp [hbanned, hexpires]
  have hlater : leapDay.system < wholeSeconds longBan.expiresAt := by decide
  have hlast := (h.2.2 [longBan] leapDay (by decide) hone).2 (List.nodup_singleton _)
  exact (hlast _ _).mpr ⟨longBan, List.mem_singleton_self _, hlater, rfl, rfl⟩

end Sample

end NixiSbc.BanRows
