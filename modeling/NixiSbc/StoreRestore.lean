import NixiSbc.StoreRuns
import NixiSbc.TextWords

namespace NixiSbc.StoreRestore

open TextFields KeyedRows StoreImport StoreRuns
open Hydration (DidRow TrunkRow AclRuleRow DestinationRuleRow aclDefaultActionKey settingDefaultConcurrent
  settingDefaultCpm destinationRulesSeededKey)

section Settings

variable {doc : ImportDoc} {mode : ImportMode} {now now' : List Char → List Char} {settings : Settings}

def limitAfter (mode : ImportMode) (value : Option UInt32) (old : Option (List Char)) : Option (List Char) :=
  match value with
  | some v => some (showNat v.toNat)
  | none => if mode = .replace then none else old

abbrev SettingWrite := List Char × (Option (List Char) → Option (List Char))

def actionWrites : Option (List Char) → List SettingWrite
  | some action => [(aclDefaultActionKey.toList, fun _ => some action)]
  | none => []

def limitWrites (mode : ImportMode) : Option ImportUserLimits → List SettingWrite
  | some limits =>
      [(settingDefaultConcurrent.toList, limitAfter mode limits.defaultMaxConcurrentCalls),
        (settingDefaultCpm.toList, limitAfter mode limits.defaultMaxCallsPerMinute)]
  | none => []

def seedWrites (now : List Char → List Char) (key : List Char) : Bool → List SettingWrite
  | true => [(key, fun old => old.or (some (now key)))]
  | false => []

/-- The settings that a document writes, under their keys. -/
def settingWrites (now : List Char → List Char) (doc : ImportDoc) (mode : ImportMode) : List SettingWrite :=
  actionWrites doc.aclDefaultAction ++ limitWrites mode doc.userLimits ++
    seedWrites now destinationRulesSeededKey.toList doc.destinationRules.isSome ++
    seedWrites now userLimitsSeededKey.toList doc.users.isSome

theorem importLimit_settings (key : List Char) (value : Option UInt32) (w : Written) :
    (importLimit mode key value w).settings = Function.update w.settings key (limitAfter mode value (w.settings key)) := by
  cases value with
  | some v => rfl
  | none =>
      rw [importLimit, limitAfter]
      cases mode with
      | merge => simp
      | replace =>
          simp only [true_and, if_true]
          split_ifs with hold
          · rfl
          · rw [Bool.not_eq_true, Option.isSome_eq_false_iff, Option.isNone_iff_eq_none] at hold
            rw [← hold, Function.update_eq_self]

theorem importSettings_settings (action : Option (List Char)) (limits : Option ImportUserLimits) :
    (importSettings mode action limits settings).settings = write (actionWrites action ++ limitWrites mode limits) settings := by
  have haction : (importSettings mode action none settings).settings = write (actionWrites action) settings := by
    cases action <;> rfl
  rw [write_append, ← haction]
  cases limits with
  | none => rfl
  | some limits =>
      change (importLimit mode _ _ (importLimit mode _ _ (importSettings mode action none settings))).settings = _
      rw [importLimit_settings, importLimit_settings]
      rfl

theorem markSeeded_eq (key : List Char) (s : Settings) (seeded : Bool) :
    (if seeded then markSeeded now key s else s) = write (seedWrites now key seeded) s := by
  cases seeded with
  | false => rfl
  | true =>
      rw [if_pos rfl, markSeeded, seedWrites, write_cons, write_nil]
      split_ifs with hold
      · rw [hold]
        rfl
      · obtain ⟨old, hold⟩ := Option.ne_none_iff_exists'.mp hold
        have hkept : (s key).or (some (now key)) = s key := by rw [hold, Option.some_or]
        exact (hkept ▸ Function.update_eq_self key s).symm

theorem settings_written :
    markSections now doc (importSettings mode doc.aclDefaultAction doc.userLimits settings).settings =
      write (settingWrites now doc mode) settings := by
  rw [markSections, markSeeded_eq, markSeeded_eq, importSettings_settings, settingWrites, ← write_append, ← write_append, ← List.append_assoc]

end Settings

section Again

variable {K R : Type} [DecidableEq K] {key : R → K} {mode : ImportMode} {rows t : List R}

end Again

section Imports

variable {nextId : Nat → Nat} {now now' : List Char → List Char} {doc : ImportDoc} {mode : ImportMode} {db db' db'' : Db}

end Imports

section Restore

variable {nextId : Nat → Nat} {now : List Char → List Char} {a b b' : Db}

end Restore

end NixiSbc.StoreRestore
