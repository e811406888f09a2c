import NixiSbc.ConfigOverlay

namespace NixiSbc.Reloads

open OrderedMaps ObjectTrees ReloadKeys ConfigOverlay

inductive ReloadSource
  | boot | sighup | api
  deriving DecidableEq

/-- What one reload did. -/
structure ReloadReport where
  ts : UInt64
  source : ReloadSource
  ok : Bool
  error : Option (List Char)
  applied : List (List Char)
  restartRequired : List (List Char)
  hydrated : Bool

section

variable {V : Type} (T : FieldTypes V)

structure Snapshot where
  boot : SbcConfig T
  effective : SbcConfig T
  lastLoaded : SbcConfig T
  path : Option (List Char)
  loadedAt : UInt64
  source : ReloadSource
  lastReload : Option ReloadReport

structure RuntimeConfig where
  snapshot : Snapshot T
  generation : UInt64

variable {T}

def RuntimeConfig.new (boot : SbcConfig T) (path : Option (List Char)) (now : UInt64) : RuntimeConfig T where
  snapshot := ⟨boot, boot, boot, path, now, .boot, none⟩
  generation := 0

def RuntimeConfig.setPath (rc : RuntimeConfig T) (path : List Char) : RuntimeConfig T :=
  { rc with snapshot := { rc.snapshot with path := some path } }

/-- Only a reload that succeeds, with the configuration that it loaded, changes what runs. -/
def Snapshot.loaded (S : Serde T) (s : Snapshot T) (report : ReloadReport) :
    Option (SbcConfig T) → Option (Snapshot T)
  | some new =>
      if report.ok then
        (overlayReloadKeys S s.effective new).map fun effective =>
          { s with effective, lastLoaded := new, loadedAt := report.ts, source := report.source }
      else some s
  | none => some s

def RuntimeConfig.recordReload (S : Serde T) (rc : RuntimeConfig T) (report : ReloadReport)
    (loaded : Option (SbcConfig T)) : Option (RuntimeConfig T) :=
  (rc.snapshot.loaded S report loaded).map fun s =>
    { snapshot := { s with lastReload := some report }, generation := rc.generation + 1 }

variable (T) in
/-- What is done to the running configuration. -/
inductive Call
  | setPath (path : List Char)
  | recordReload (report : ReloadReport) (loaded : Option (SbcConfig T))

def RuntimeConfig.call (S : Serde T) (rc : RuntimeConfig T) : Call T → Option (RuntimeConfig T)
  | .setPath path => some (rc.setPath path)
  | .recordReload report loaded => rc.recordReload S report loaded

def RuntimeConfig.run (S : Serde T) (rc : RuntimeConfig T) (calls : List (Call T)) : Option (RuntimeConfig T) :=
  calls.foldlM (RuntimeConfig.call S) rc

/-- The configuration that a call loads. -/
def Call.loads : Call T → Option (SbcConfig T)
  | .recordReload report loaded => if report.ok then loaded else none
  | .setPath _ => none

/-- The configuration loaded last, if one was. -/
def lastLoaded (calls : List (Call T)) : Option (SbcConfig T) := (calls.filterMap Call.loads).getLast?

/-- The reload-class leaves are those of the loaded configuration, all others those of the
running one, and the difference that is left is what needs a restart. -/
structure Overlays [DecidableEq V] (e n e' : SbcConfig T) : Prop where
  leaf (path : List Char) : get? path (configLeaves e') =
    if classifyKey path = .reload then get? path (configLeaves n) else get? path (configLeaves e)
  reloadPending : (configDiff e' n).reloadPending = []
  restartRequired : (configDiff e' n).restartRequired = (configDiff e n).restartRequired

/-- What runs is the boot configuration with the fields of the configuration loaded last. -/
structure Tracks (b last : SbcConfig T) (rc : RuntimeConfig T) : Prop where
  boot : rc.snapshot.boot = b
  lastLoaded : rc.snapshot.lastLoaded = last
  effective : rc.snapshot.effective = b.overlaid last

end

variable {V : Type} {T : FieldTypes V} {b last : SbcConfig T} {rc : RuntimeConfig T}

theorem overlays_overlaid [DecidableEq V] (e n : SbcConfig T) : Overlays e n (e.overlaid n) :=
  ⟨get?_overlaid e n, reloadPending_overlaid e n, restartRequired_overlaid e n⟩

section Runs

theorem tracks_new (b : SbcConfig T) (path : Option (List Char)) (now : UInt64) :
    Tracks b b (RuntimeConfig.new b path now) :=
  ⟨rfl, rfl, (overlaid_self b).symm⟩

theorem tracks_call (S : Serde T) (h : Tracks b last rc) (c : Call T) :
    ∃ rc', rc.call S c = some rc' ∧ Tracks b (c.loads.getD last) rc' := by
  cases c with
  | setPath path => exact ⟨_, rfl, h.boot, h.lastLoaded, h.effective⟩
  | recordReload report loaded =>
      rw [RuntimeConfig.call, RuntimeConfig.recordReload, Call.loads]
      cases loaded with
      | none => exact ⟨_, rfl, h.boot, by rw [ite_self]; exact h.lastLoaded, by rw [ite_self]; exact h.effective⟩
      | some new =>
          rw [Snapshot.loaded, overlayReloadKeys_eq]
          by_cases hok : report.ok = true
          · rw [if_pos hok, if_pos hok]
            refine ⟨_, rfl, h.boot, rfl, ?_⟩
            -- the fields of the configuration loaded before are all replaced
            rw [Option.getD_some, ← overlaid_overlaid b last new, ← h.effective]
          · rw [if_neg hok, if_neg hok]
            exact ⟨_, rfl, h.boot, h.lastLoaded, h.effective⟩

theorem lastLoaded_cons (c : Call T) (calls : List (Call T)) (last : SbcConfig T) :
    (lastLoaded (c :: calls)).getD last = (lastLoaded calls).getD (c.loads.getD last) := by
  rw [lastLoaded, lastLoaded]
  cases hc : c.loads with
  | none => rw [List.filterMap_cons_none hc, Option.getD_none]
  | some n => rw [List.filterMap_cons_some hc, List.getLast?_cons, Option.getD_some, Option.getD_some]

theorem tracks_run (S : Serde T) (h : Tracks b last rc) (calls : List (Call T)) :
    ∃ rc', rc.run S calls = some rc' ∧ Tracks b ((lastLoaded calls).getD last) rc' := by
  induction calls generalizing last rc with
  | nil => exact ⟨rc, rfl, h⟩
  | cons c calls ih =>
      obtain ⟨rc', hcall, hrc'⟩ := tracks_call S h c
      obtain ⟨rc'', hrun, hrc''⟩ := ih hrc'
      refine ⟨rc'', ?_, ?_⟩
      · rw [RuntimeConfig.run, List.foldlM_cons, hcall]
        exact hrun
      · rw [lastLoaded_cons]
        exact hrc''

/-- A restart is asked for by what the file loaded last changes of the boot configuration,
whatever was loaded in between. -/
theorem restartRequired_run [DecidableEq V] (S : Serde T) (b : SbcConfig T) (path : Option (List Char))
    (now : UInt64) (calls : List (Call T)) :
    ∃ rc, (RuntimeConfig.new b path now).run S calls = some rc ∧
      configDiff rc.snapshot.effective rc.snapshot.lastLoaded =
        ⟨(configDiff b rc.snapshot.lastLoaded).restartRequired, []⟩ := by
  obtain ⟨rc, hrun, htracks⟩ := tracks_run S (tracks_new b path now) calls
  refine ⟨rc, hrun, ?_⟩
  rw [htracks.effective, ← htracks.lastLoaded, ← restartRequired_overlaid, ← reloadPending_overlaid b]

/-- A reload takes every reload-class leaf and no other from the file, a second one with the
same file changes nothing, and after any reloads what runs is told by the boot configuration
and the one loaded last. -/
theorem reload_exact [DecidableEq V] (S : Serde T) :
    (∀ e n : SbcConfig T, ∃ e', overlayReloadKeys S e n = some e' ∧ Overlays e n e' ∧
      overlayReloadKeys S e' n = some e') ∧
    ∀ (b : SbcConfig T) (path : Option (List Char)) (now : UInt64) (calls : List (Call T)),
      ∃ rc, (RuntimeConfig.new b path now).run S calls = some rc ∧
        rc.snapshot.lastLoaded = (lastLoaded calls).getD b ∧
        overlayReloadKeys S b rc.snapshot.lastLoaded = some rc.snapshot.effective := by
  constructor
  · intro e n
    refine ⟨e.overlaid n, overlayReloadKeys_eq S e n, overlays_overlaid e n, ?_⟩
    rw [overlayReloadKeys_eq, overlaid_overlaid]
  · intro b path now calls
    obtain ⟨rc, hrun, htracks⟩ := tracks_run S (tracks_new b path now) calls
    refine ⟨rc, hrun, htracks.lastLoaded, ?_⟩
    rw [overlayReloadKeys_eq, htracks.effective, htracks.lastLoaded]

end Runs

end NixiSbc.Reloads
