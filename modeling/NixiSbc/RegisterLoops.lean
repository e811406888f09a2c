import NixiSbc.StateRuns
import NixiSbc.TrunkRegister
import NixiSbc.TrunkTaskSync

namespace NixiSbc.RegisterLoops

open KeyedTable StateRuns Hydration TrunkRegister TrunkTasks
open Trunks (TrunkId)
open UserLimits (second)

/-- The timings that bound the refresh period, in nanoseconds. -/
structure TrunkTasksConfig where
  refreshMin : Nat
  refreshFloor : Nat
  second_le : second ≤ refreshMin
  min_le : refreshMin ≤ refreshFloor

def interval (cfg : TrunkTasksConfig) (spec : TaskSpec) : Nat :=
  max (spec.registrationInterval.toNat * second) cfg.refreshFloor

def clampDuration (d low high : Nat) : Nat := if d < low then low else if high < d then high else d

/-- How long a loop waits before it refreshes a registration. -/
def refreshDelay (cfg : TrunkTasksConfig) (spec : TaskSpec) (granted : UInt32) : Nat :=
  clampDuration (max (granted.toNat * 8 / 10) 1 * second) cfg.refreshMin (interval cfg spec)

def requestedExpires (spec : TaskSpec) : UInt32 := UInt32.ofNat (min (max spec.registrationInterval.toNat 1) (2 ^ 32 - 1))

inductive Phase
  | sending (retried : Bool)
  | handling (outcome : RegisterOutcome)
  | sleeping
  | backingOff
  | stopped
  deriving DecidableEq

/-- A loop that has stopped or is about to. -/
def Phase.Over : Phase → Prop
  | .handling .cancelled | .stopped => True
  | _ => False

/-- What the last REGISTER was granted and after how long it is refreshed; none after a failure. -/
structure Grant where
  granted : UInt32
  delay : Nat

structure Loop where
  spec : TaskSpec
  expires : UInt32
  phase : Phase
  grant : Option Grant

def Loop.new (spec : TaskSpec) : Loop := ⟨spec, requestedExpires spec, .sending false, none⟩

/-- The registry, the flag of each trunk's state and the register loops by generation. -/
structure System where
  reg : Registry
  states : Table TrunkId Bool
  loops : Nat → Option Loop

def start : System := ⟨TrunkTaskSync.emptyRegistry, ∅, fun _ => none⟩

inductive Act
  | addTrunk (id : TrunkId)
  | removeTrunk (id : TrunkId)
  | sync (wanted : Table (List Char) TaskSpec)
  | answer (k : Nat) (outcome : RegisterOutcome)
  | update (k : Nat)
  | wake (k : Nat)
  | stop (k : Nat)

/-- The loops after a sync: a new one for each generation that registers. -/
def startedLoops (before after : Registry) (loops : Nat → Option Loop) (k : Nat) : Option Loop :=
  if before.generation < k then
    (after.running.entries.find? fun e => e.2.generation = k ∧ e.2.spec.register).map fun e => .new e.2.spec
  else loops k

def clearStates (l : List Running) (states : Table TrunkId Bool) : Table TrunkId Bool :=
  l.foldl (fun states r => modify r.spec.id (fun _ => false) states) states

section

variable (cfg : TrunkTasksConfig)

/-- An interval that was too brief is tried once more with the one that the trunk asks for. -/
def answered (loop : Loop) (retried : Bool) : RegisterOutcome → Loop
  | .intervalTooBrief minExpires =>
      if retried = false ∧ loop.expires < minExpires then
        { loop with expires := minExpires, phase := .sending true }
      else { loop with phase := .handling (.intervalTooBrief minExpires) }
  | outcome => { loop with phase := .handling outcome }

def handled (loop : Loop) : RegisterOutcome → Loop × Option Bool
  | .cancelled => ({ loop with phase := .stopped }, none)
  | .registered granted =>
      ({ loop with phase := .sleeping, grant := some ⟨granted, refreshDelay cfg loop.spec granted⟩ }, some true)
  | _ => ({ loop with phase := .backingOff, grant := none }, some false)

def System.setLoop (s : System) (k : Nat) (loop : Loop) : System :=
  { s with loops := Function.update s.loops k (some loop) }

/-- A cancelled loop may still take the answer that has come, and stops when it next sleeps. -/
def step (s : System) : Act → System
  | .addTrunk id => { s with states := s.states.insert id false }
  | .removeTrunk id => { s with states := s.states.erase id }
  | .sync wanted =>
      { reg := bringInLine wanted s.reg
        states := clearStates (stale wanted s.reg) s.states
        loops := startedLoops s.reg (bringInLine wanted s.reg) s.loops }
  | .answer k outcome =>
      match s.loops k with
      | some loop =>
          match loop.phase with
          | .sending retried =>
              if outcome = .cancelled ∧ k ∉ s.reg.cancelled then s else s.setLoop k (answered loop retried outcome)
          | _ => s
      | none => s
  | .update k =>
      match s.loops k with
      | some loop =>
          match loop.phase with
          | .handling outcome =>
              let (loop', flag) := handled cfg loop outcome
              match flag with
              | some registered =>
                  { s.setLoop k loop' with states := modify loop.spec.id (fun _ => registered) s.states }
              | none => s.setLoop k loop'
          | _ => s
      | none => s
  | .wake k =>
      match s.loops k with
      | some loop =>
          match loop.phase with
          | .sleeping | .backingOff => s.setLoop k { loop with phase := .sending false }
          | _ => s
      | none => s
  | .stop k =>
      match s.loops k with
      | some loop =>
          match loop.phase with
          | .sleeping | .backingOff => if k ∈ s.reg.cancelled then s.setLoop k { loop with phase := .stopped } else s
          | _ => s
      | none => s

end

/-- A trunk that is shown as registered has a running loop that refreshes in time. -/
def Right (s : System) : Prop :=
  ∀ id, s.states.lookup id = some true → ∃ name r loop grant,
    s.reg.running.lookup name = some r ∧ r.generation ∉ s.reg.cancelled ∧ s.loops r.generation = some loop ∧
      loop.spec.id = id ∧ loop.phase ≠ .stopped ∧ loop.grant = some grant ∧
        grant.delay < grant.granted.toNat * second

/-- A registration is taken over by a loop that is not cancelled, and is granted more than
the floor of the refresh period. -/
def InForce (cfg : TrunkTasksConfig) (s : System) : Act → Prop
  | .update k => ∀ loop granted, s.loops k = some loop → loop.phase = .handling (.registered granted) →
      k ∉ s.reg.cancelled ∧ cfg.refreshMin < granted.toNat * second
  | _ => True

structure Inv (s : System) : Prop where
  accounted : Accounted s.reg
  positive : ∀ name r, s.reg.running.lookup name = some r → 0 < r.generation
  generation : ∀ k loop, s.loops k = some loop → 0 < k ∧ k ≤ s.reg.generation
  spec : ∀ name r loop, s.reg.running.lookup name = some r → s.loops r.generation = some loop → loop.spec = r.spec
  ended : ∀ k loop, s.loops k = some loop → loop.phase.Over → k ∈ s.reg.cancelled
  right : Right s

variable {cfg : TrunkTasksConfig} {s : System} {k : Nat} {loop : Loop}

/-- The refresh comes in time exactly when the grant is longer than the floor. -/
theorem refreshDelay_lt_iff {spec : TaskSpec} {granted : UInt32} :
    refreshDelay cfg spec granted < granted.toNat * second ↔ cfg.refreshMin < granted.toNat * second := by
  have hsecond : 1000000000 ≤ cfg.refreshMin := cfg.second_le
  have hmin := cfg.min_le
  have hinterval : cfg.refreshFloor ≤ interval cfg spec := le_max_right _ _
  have hvalue : second = 1000000000 := rfl
  rw [refreshDelay, clampDuration]
  generalize interval cfg spec = high at hinterval ⊢
  generalize granted.toNat = g
  rw [hvalue]
  split
  next => rfl
  next =>
    split
    next => omega
    next => omega

theorem lookup_clearStates {l : List Running} {states : Table TrunkId Bool} {id : TrunkId}
    (h : (clearStates l states).lookup id = some true) :
    states.lookup id = some true ∧ ∀ r ∈ l, r.spec.id ≠ id := by
  induction l generalizing states with
  | nil => exact ⟨h, fun _ hr => absurd hr List.not_mem_nil⟩
  | cons r l ih =>
      obtain ⟨hrest, hl⟩ := ih h
      rw [lookup_modify_eq] at hrest
      obtain ⟨flag, hflag, heq⟩ := Option.map_eq_some_iff.mp hrest
      by_cases hid : id = r.spec.id
      · rw [if_pos hid] at heq
        cases heq
      · rw [if_neg hid] at heq
        subst heq
        refine ⟨hflag, fun r' hr' => ?_⟩
        rcases List.mem_cons.mp hr' with rfl | hr'
        · exact fun he => hid he.symm
        · exact hl r' hr'

theorem clearStates_stale {wanted : Table (List Char) TaskSpec} {id : TrunkId} {name : List Char} {r : Running}
    (h : (clearStates (stale wanted s.reg) s.states).lookup id = some true)
    (hr : s.reg.running.lookup name = some r) (hid : r.spec.id = id) : wanted.lookup name = some r.spec := by
  by_contra hwanted
  exact (lookup_clearStates h).2 r (mem_stale.mpr ⟨name, hr, hwanted⟩) hid

theorem startedLoops_some {before after : Registry} {loops : Nat → Option Loop}
    (h : startedLoops before after loops k = some loop) :
    (k ≤ before.generation ∧ loops k = some loop) ∨
      (before.generation < k ∧ ∃ name r, after.running.lookup name = some r ∧ r.generation = k ∧ loop = .new r.spec) := by
  rw [startedLoops] at h
  split at h
  next hlt =>
    obtain ⟨⟨name, r⟩, hfind, rfl⟩ := Option.map_eq_some_iff.mp h
    have hkept : r.generation = k ∧ r.spec.register = true := by simpa using List.find?_some hfind
    exact .inr ⟨hlt, name, r, AList.mem_lookup_iff.mpr (List.mem_of_find?_eq_some hfind), hkept.1, rfl⟩
  next hle => exact .inl ⟨Nat.not_lt.mp hle, h⟩

theorem startedLoops_old {before after : Registry} {loops : Nat → Option Loop} (h : k ≤ before.generation) :
    startedLoops before after loops k = loops k := if_neg (Nat.not_lt.mpr h)

/-- A registered trunk's loop is none of those that a sync stops. -/
theorem Inv.sync (h : Inv s) (wanted : Table (List Char) TaskSpec) : Inv (step cfg s (.sync wanted)) where
  accounted := h.accounted.bringInLine wanted
  positive name r hr := by
    rcases lookup_bringInLine_cases hr with hr | hlt
    · exact h.positive name r hr
    · exact (Nat.zero_le _).trans_lt hlt
  generation k loop hloop := by
    rcases startedLoops_some hloop with ⟨_, hloop⟩ | ⟨hlt, name, r, hr, rfl, _⟩
    · obtain ⟨hpos, hle⟩ := h.generation k loop hloop
      exact ⟨hpos, hle.trans (generation_foldl_startOne (stop wanted s.reg) _)⟩
    · exact ⟨(Nat.zero_le _).trans_lt hlt, (h.accounted.bringInLine wanted).running_le name r hr⟩
  spec name r loop hr hloop := by
    rcases startedLoops_some hloop with ⟨hle, hloop⟩ | ⟨_, name', r', hr', hgeneration, rfl⟩
    · rcases lookup_bringInLine_cases hr with hr | hlt
      · exact h.spec name r loop hr hloop
      · exact absurd hlt (Nat.not_lt.mpr hle)
    · obtain rfl := (h.accounted.bringInLine wanted).distinct name' name r' r hr' hr hgeneration
      obtain rfl := Option.some.inj (hr'.symm.trans hr)
      rfl
  ended k loop hloop hover := by
    rcases startedLoops_some hloop with ⟨_, hloop⟩ | ⟨_, _, _, _, _, rfl⟩
    · have hcancelled := cancelled_foldl_startOne (stop wanted s.reg) (toStart wanted (stop wanted s.reg))
      have hmem : k ∈ (stop wanted s.reg).cancelled := List.mem_append_left _ (h.ended k loop hloop hover)
      exact hcancelled ▸ hmem
    · exact hover.elim
  right id hid := by
    obtain ⟨name, r, loop, grant, hr, _, hloop, hspec, hrest⟩ := h.right id (lookup_clearStates hid).1
    have hrid : r.spec.id = id := by rw [← h.spec name r loop hr hloop, hspec]
    have hkept := lookup_bringInLine_kept hr (clearStates_stale hid hr hrid)
    have hloops : startedLoops s.reg (bringInLine wanted s.reg) s.loops r.generation = s.loops r.generation :=
      startedLoops_old (h.accounted.running_le name r hr)
    exact ⟨name, r, loop, grant, hkept, (h.accounted.bringInLine wanted).apart name r hkept, hloops.trans hloop, hspec,
      hrest⟩

theorem loops_setLoop_self : (s.setLoop k loop).loops k = some loop := Function.update_self _ _ _

theorem loops_setLoop_ne {j : Nat} (h : j ≠ k) : (s.setLoop k loop).loops j = s.loops j := Function.update_of_ne h _ _

theorem Inv.withStates (h : Inv s) {states : Table TrunkId Bool} (hright : Right { s with states := states }) :
    Inv { s with states := states } := { h with right := hright }

/-- A loop that goes on with its trunk and is over only when it was cancelled. -/
theorem Inv.setLoop (h : Inv s) (hloop : s.loops k = some loop) {loop' : Loop} (hspec : loop'.spec = loop.spec)
    (hover : loop'.phase.Over → k ∈ s.reg.cancelled) (hright : Right (s.setLoop k loop')) :
    Inv (s.setLoop k loop') where
  accounted := h.accounted
  positive := h.positive
  generation j l hl := by
    by_cases hj : j = k
    · subst hj
      exact h.generation j loop hloop
    · rw [loops_setLoop_ne hj] at hl
      exact h.generation j l hl
  spec name r l hr hl := by
    by_cases hj : r.generation = k
    · rw [hj, loops_setLoop_self] at hl
      obtain rfl := Option.some.inj hl
      rw [hspec]
      exact h.spec name r loop hr (hj ▸ hloop)
    · rw [loops_setLoop_ne hj] at hl
      exact h.spec name r l hr hl
  ended j l hl hl' := by
    by_cases hj : j = k
    · rw [hj, loops_setLoop_self] at hl
      obtain rfl := Option.some.inj hl
      exact hj ▸ hover hl'
    · rw [loops_setLoop_ne hj] at hl
      exact h.ended j l hl hl'
  right := hright

/-- A loop that keeps its trunk and its grant is as good as before. -/
theorem Right.setLoop (h : Right s) (hloop : s.loops k = some loop) {loop' : Loop} (hspec : loop'.spec = loop.spec)
    (hgrant : loop'.grant = loop.grant) (hphase : loop'.phase = .stopped → k ∈ s.reg.cancelled) :
    Right (s.setLoop k loop') := by
  intro id hid
  obtain ⟨name, r, l, grant, hr, hcancelled, hl, hlid, hlphase, hlgrant, hlt⟩ := h id hid
  by_cases hj : r.generation = k
  · subst hj
    obtain rfl := Option.some.inj (hl.symm.trans hloop)
    refine ⟨name, r, loop', grant, hr, hcancelled, loops_setLoop_self, ?_, ?_, ?_, hlt⟩
    · rw [hspec, hlid]
    · exact fun hstopped => hcancelled (hphase hstopped)
    · rw [hgrant, hlgrant]
  · exact ⟨name, r, l, grant, hr, hcancelled, (loops_setLoop_ne hj).trans hl, hlid, hlphase, hlgrant, hlt⟩

/-- What a loop does besides taking over an outcome. -/
theorem Inv.goOn (h : Inv s) (hloop : s.loops k = some loop) {loop' : Loop} (hspec : loop'.spec = loop.spec)
    (hgrant : loop'.grant = loop.grant) (hover : loop'.phase.Over → k ∈ s.reg.cancelled) : Inv (s.setLoop k loop') := by
  refine h.setLoop hloop hspec hover (h.right.setLoop hloop hspec hgrant fun hstopped => hover ?_)
  rw [hstopped]
  trivial

/-- The loop whose trunk is shown as registered is the one that was told so last. -/
theorem Inv.flagged (h : Inv s) (hloop : s.loops k = some loop) (loop' : Loop) (hspec : loop'.spec = loop.spec)
    (hphase : ¬loop'.phase.Over) (registered : Bool)
    (hown : registered = true → k ∉ s.reg.cancelled ∧ ∃ grant, loop'.grant = some grant ∧
      grant.delay < grant.granted.toNat * second) :
    Inv { s.setLoop k loop' with states := modify loop.spec.id (fun _ => registered) s.states } := by
  have hstopped : loop'.phase ≠ .stopped := by
    intro hp
    rw [hp] at hphase
    exact hphase trivial
  have hright : Right { s.setLoop k loop' with states := modify loop.spec.id (fun _ => registered) s.states } := by
    intro id hid
    rw [lookup_modify_eq] at hid
    obtain ⟨flag, hflag, heq⟩ := Option.map_eq_some_iff.mp hid
    by_cases hown' : id = loop.spec.id
    · rw [if_pos hown'] at heq
      obtain ⟨hcancelled, grant, hgrant, hlt⟩ := hown heq
      obtain ⟨hpos, hle⟩ := h.generation k loop hloop
      obtain ⟨name, r, hr, rfl⟩ := (h.accounted.all k hpos hle).resolve_left hcancelled
      refine ⟨name, r, loop', grant, hr, hcancelled, loops_setLoop_self, ?_, hstopped, hgrant, hlt⟩
      rw [hspec, hown']
    · rw [if_neg hown'] at heq
      subst heq
      obtain ⟨name, r, l, grant, hr, hcancelled, hl, hlid, hrest⟩ := h.right id hflag
      have hj : r.generation ≠ k := by
        rintro rfl
        obtain rfl := Option.some.inj (hl.symm.trans hloop)
        exact hown' hlid.symm
      exact ⟨name, r, l, grant, hr, hcancelled, (loops_setLoop_ne hj).trans hl, hlid, hrest⟩
  have hset : Inv ((({ s with states := ∅ } : System)).setLoop k loop') := by
    have hnone : Right { s with states := ∅ } := by
      intro id hid
      rw [AList.lookup_empty] at hid
      cases hid
    refine (h.withStates hnone).setLoop hloop hspec (fun ho => absurd ho hphase) fun id hid => ?_
    rw [System.setLoop, AList.lookup_empty] at hid
    cases hid
  exact hset.withStates hright

theorem Inv.update (h : Inv s) (k : Nat) (ha : InForce cfg s (.update k)) : Inv (step cfg s (.update k)) := by
  rw [step]
  split
  next loop hloop =>
    split
    next outcome hphase =>
      cases outcome with
      | cancelled =>
          have hcancelled : k ∈ s.reg.cancelled := by
            refine h.ended k loop hloop ?_
            rw [hphase]
            trivial
          simp only [handled]
          exact h.goOn hloop rfl rfl fun _ => hcancelled
      | registered granted =>
          obtain ⟨hcancelled, hlt⟩ := ha loop granted hloop hphase
          have hdelay : refreshDelay cfg loop.spec granted < granted.toNat * second := refreshDelay_lt_iff.mpr hlt
          simp only [handled]
          let loop' : Loop := { loop with phase := .sleeping, grant := some ⟨granted, refreshDelay cfg loop.spec granted⟩ }
          exact h.flagged hloop loop' rfl (fun ho => ho) true fun _ =>
            ⟨hcancelled, ⟨granted, refreshDelay cfg loop.spec granted⟩, rfl, hdelay⟩
      | _ =>
          simp only [handled]
          exact h.flagged hloop { loop with phase := .backingOff, grant := none } rfl (fun ho => ho) false nofun
    next => exact h
  next => exact h

theorem answered_spec {retried : Bool} {outcome : RegisterOutcome} : (answered loop retried outcome).spec = loop.spec := by
  fun_cases answered loop retried outcome
  · rfl
  · rfl
  · rfl

theorem answered_grant {retried : Bool} {outcome : RegisterOutcome} :
    (answered loop retried outcome).grant = loop.grant := by
  fun_cases answered loop retried outcome
  · rfl
  · rfl
  · rfl

theorem cancelled_of_answered {retried : Bool} {outcome : RegisterOutcome}
    (h : (answered loop retried outcome).phase.Over) : outcome = .cancelled := by
  cases outcome with
  | cancelled => rfl
  | intervalTooBrief minExpires =>
      rw [answered] at h
      split at h
      · exact h.elim
      · exact h.elim
  | _ => exact h.elim

theorem Inv.step (h : Inv s) (act : Act) (ha : InForce cfg s act) : Inv (step cfg s act) := by
  cases act with
  | sync wanted => exact h.sync wanted
  | update k => exact h.update k ha
  | addTrunk id =>
      refine h.withStates fun id' hid => h.right id' ?_
      by_cases heq : id' = id
      · rw [heq, AList.lookup_insert] at hid
        cases hid
      · rwa [AList.lookup_insert_ne heq] at hid
  | removeTrunk id =>
      refine h.withStates fun id' hid => h.right id' ?_
      by_cases heq : id' = id
      · rw [heq, AList.lookup_erase] at hid
        cases hid
      · rwa [AList.lookup_erase_ne heq] at hid
  | answer k outcome =>
      rw [RegisterLoops.step]
      split
      next loop hloop =>
        split
        next retried hphase =>
          split
          next => exact h
          next hbranch =>
            refine h.goOn hloop answered_spec answered_grant fun hover => ?_
            by_contra hcancelled
            exact hbranch ⟨cancelled_of_answered hover, hcancelled⟩
        next => exact h
      next => exact h
  | wake k =>
      rw [RegisterLoops.step]
      split
      next loop hloop =>
        split
        next => exact h.goOn hloop rfl rfl fun hover => hover.elim
        next => exact h.goOn hloop rfl rfl fun hover => hover.elim
        next => exact h
      next => exact h
  | stop k =>
      rw [RegisterLoops.step]
      split
      next loop hloop =>
        split
        next =>
          split
          next hcancelled => exact h.goOn hloop rfl rfl fun _ => hcancelled
          next => exact h
        next =>
          split
          next hcancelled => exact h.goOn hloop rfl rfl fun _ => hcancelled
          next => exact h
        next => exact h
      next => exact h

theorem running_start (name : List Char) : start.reg.running.lookup name = none :=
  TrunkTaskSync.lookup_emptyRegistry name

theorem states_start (id : TrunkId) : start.states.lookup id = none := AList.lookup_empty id

theorem loops_start (k : Nat) : start.loops k = none := rfl

theorem inv_start : Inv start where
  accounted := TrunkTaskSync.accounted_emptyRegistry
  positive name r hr := by
    rw [running_start] at hr
    cases hr
  generation k loop hloop := by
    rw [loops_start] at hloop
    cases hloop
  spec name r loop hr := by
    rw [running_start] at hr
    cases hr
  ended k loop hloop := by
    rw [loops_start] at hloop
    cases hloop
  right id hid := by
    rw [states_start] at hid
    cases hid

/-- In a run of registrations in force every trunk that is shown as registered is registered. -/
theorem registered_in_force (cfg : TrunkTasksConfig) (acts : List Act)
    (hrun : Throughout (step cfg) (InForce cfg) start acts) : Right (acts.foldl (step cfg) start) := by
  have hstep (s : System) (a : Act) (hs : Inv s) (ha : InForce cfg s a) : Inv (step cfg s a) := hs.step a ha
  have hinv : Inv (acts.foldl (step cfg) start) := invariant_run (I := Inv) hstep inv_start hrun
  exact hinv.right

theorem second_le_thirty : second ≤ 30 * second := by decide

theorem thirty_le_sixty : 30 * second ≤ 60 * second := by decide

def defaults : TrunkTasksConfig := ⟨30 * second, 60 * second, second_le_thirty, thirty_le_sixty⟩

def gateway : TaskSpec := { TaskSpec.fromConfig TrunkTaskSync.noAddress TrunkTaskSync.gateway with register := true }

def gatewayOnly : Table (List Char) TaskSpec := (∅ : Table (List Char) TaskSpec).insert gateway.name gateway

def registering (granted : UInt32) : List Act :=
  [.addTrunk 1, .sync gatewayOnly, .answer 1 (.registered granted), .update 1]

theorem registered_in_force_hour : Right ((registering 3600).foldl (step defaults) start) := by
  refine registered_in_force defaults (registering 3600) ⟨trivial, trivial, trivial, ?_, trivial⟩
  rintro loop granted ⟨⟩ ⟨⟩
  decide

/-- The answer has come, then the trunk is disabled, then the loop takes the answer over. -/
def registersWhenDisabled : List Act :=
  [.addTrunk 1, .sync gatewayOnly, .answer 1 (.registered 3600), .sync ∅, .update 1]

theorem registered_shown_wrongly :
    ¬Right ((registering 20).foldl (step defaults) start) ∧
      ¬Right (registersWhenDisabled.foldl (step defaults) start) := by
  constructor
  · intro h
    obtain ⟨name, r, loop, grant, hr, _, hloop, _, _, hgrant, hlt⟩ := h 1 rfl
    have hrunning : ((registering 20).foldl (step defaults) start).reg.running =
        (∅ : Table (List Char) Running).insert gateway.name ⟨gateway, 1⟩ := rfl
    rw [hrunning] at hr
    by_cases hname : name = gateway.name
    · rw [hname, AList.lookup_insert] at hr
      obtain rfl := Option.some.inj hr
      obtain rfl := Option.some.inj hloop
      obtain rfl := Option.some.inj hgrant
      revert hlt
      decide
    · rw [AList.lookup_insert_ne hname, AList.lookup_empty] at hr
      cases hr
  · intro h
    obtain ⟨name, r, loop, grant, hr, _⟩ := h 1 rfl
    have hrunning : (registersWhenDisabled.foldl (step defaults) start).reg.running = ∅ := rfl
    rw [hrunning, AList.lookup_empty] at hr
    cases hr

end NixiSbc.RegisterLoops
