import Mathlib.Data.List.Induction
import NixiSbc.KeyedTable
import NixiSbc.StateRuns
import NixiSbc.TimeQueue

namespace NixiSbc.UserLimits

open KeyedTable StateRuns TimeQueue

/-- Instants are counted in nanoseconds. -/
def second : Nat := 1000000000

def window : Nat := 60 * second

structure Limits where
  maxConcurrentCalls : Option UInt32
  maxCallsPerMinute : Option UInt32

inductive LimitDecision
  | allowed
  | concurrentExceeded (current limit : UInt32)
  | rateExceeded (current limit : UInt32) (retryAfterSecs : Nat)
  deriving DecidableEq

/-- The defaults are those for concurrent calls and for calls per minute, where
zero is no limit. -/
structure UserLimitsManager where
  enabled : Bool
  defaults : UInt32 × UInt32
  overrides : Table (List Char) Limits
  rateWindows : Table (List Char) (List Nat)

def limitsFor (m : UserLimitsManager) (user : List Char) : UInt32 × UInt32 :=
  match m.overrides.lookup user with
  | some o => (o.maxConcurrentCalls.getD m.defaults.1, o.maxCallsPerMinute.getD m.defaults.2)
  | none => m.defaults

/-- Drop the windows with no attempt in the last minute. -/
def pruneIdleWindows (m : UserLimitsManager) (now : Nat) : Nat × UserLimitsManager :=
  (count (idle window now) m.rateWindows,
    { m with
      rateWindows := sweep (fun _ q => if idle window now q then none else some q) m.rateWindows })

def retryAfter (now : Nat) (attempts : List Nat) : Nat :=
  max ((attempts.head?.map fun t => 60 - (now - t) / second).getD 60) 1

/-- The check of one user's window, with the window that it leaves. -/
def checkRate (now : Nat) (maxCpm : UInt32) (attempts : List Nat) : LimitDecision × List Nat :=
  let attempts := expire window now attempts
  if maxCpm ≤ UInt32.ofNat attempts.length then
    (.rateExceeded (UInt32.ofNat attempts.length) maxCpm (retryAfter now attempts), attempts)
  else (.allowed, attempts ++ [now])

def overConcurrent (m : UserLimitsManager) (user : List Char) (current : UInt32) : Bool :=
  decide (0 < (limitsFor m user).1) && decide ((limitsFor m user).1 ≤ current)

def windowOf (m : UserLimitsManager) (user : List Char) : List Nat :=
  (m.rateWindows.lookup user).getD []

def checkAndRecord (m : UserLimitsManager) (now : Nat) (user : List Char) (current : UInt32) :
    LimitDecision × UserLimitsManager :=
  if m.enabled then
    if overConcurrent m user current then
      (.concurrentExceeded current (limitsFor m user).1, m)
    else if 0 < (limitsFor m user).2 then
      let r := checkRate now (limitsFor m user).2 (windowOf m user)
      (r.1, { m with rateWindows := m.rateWindows.insert user r.2 })
    else (.allowed, m)
  else (.allowed, m)

inductive Call
  | checkAndRecord (user : List Char) (currentConcurrent : UInt32)
  | pruneIdleWindows
  deriving DecidableEq

/-- One call at one instant, with the decision if there is one. -/
def step (m : UserLimitsManager) : Nat × Call → Option LimitDecision × UserLimitsManager
  | (now, .checkAndRecord user current) =>
      let r := checkAndRecord m now user current
      (some r.1, r.2)
  | (now, .pruneIdleWindows) => (none, (pruneIdleWindows m now).2)

def Call.isBy (user : List Char) : Call → Bool
  | .checkAndRecord u _ => decide (u = user)
  | .pruneIdleWindows => false

def Call.isAttempt : Call → Bool
  | .checkAndRecord .. => true
  | .pruneIdleWindows => false

def allowedAt (user : List Char) : (Nat × Call) × Option LimitDecision → Option Nat
  | ((now, call), some .allowed) => if call.isBy user then some now else none
  | _ => none

/-- The instants of the attempts of a user that were allowed. -/
def allowedTimes (m : UserLimitsManager) (user : List Char) (calls : List (Nat × Call)) : List Nat :=
  (calls.zip (runAll step m calls).1).filterMap (allowedAt user)

/-- What an attempt is answered after some calls. -/
def decisionAfter (m : UserLimitsManager) (calls : List (Nat × Call)) (now : Nat) (user : List Char)
    (current : UInt32) : LimitDecision :=
  (checkAndRecord (runAll step m calls).2 now user current).1

def refusedForRate : LimitDecision → Bool
  | .rateExceeded .. => true
  | _ => false

/-- The limiter is on and holds the user to so many calls a minute. -/
structure RateLimited (m : UserLimitsManager) (user : List Char) (maxCpm : UInt32) : Prop where
  enabled : m.enabled = true
  limit : (limitsFor m user).2 = maxCpm
  pos : 0 < maxCpm

section Steps

variable {m : UserLimitsManager} {user : List Char} {maxCpm : UInt32} {now : Nat} {q all : List Nat}

theorem step_config (m : UserLimitsManager) (e : Nat × Call) :
    (step m e).2 = { m with rateWindows := (step m e).2.rateWindows } := by
  obtain ⟨now, call⟩ := e
  cases call with
  | pruneIdleWindows => rfl
  | checkAndRecord u current =>
      rw [step, checkAndRecord]
      split
      · split
        · rfl
        · split
          · rfl
          · rfl
      · rfl

theorem run_config (m : UserLimitsManager) (calls : List (Nat × Call)) :
    (runAll step m calls).2 = { m with rateWindows := (runAll step m calls).2.rateWindows } := by
  induction calls using List.reverseRecOn with
  | nil => rfl
  | append_singleton calls e ih =>
      rw [runAll_concat, step_config, ih]

theorem RateLimited.run (h : RateLimited m user maxCpm) (calls : List (Nat × Call)) :
    RateLimited (runAll step m calls).2 user maxCpm := by
  rw [run_config]
  exact ⟨h.enabled, h.limit, h.pos⟩

theorem overConcurrent_run (m : UserLimitsManager) (calls : List (Nat × Call)) (user : List Char)
    (current : UInt32) :
    overConcurrent (runAll step m calls).2 user current = overConcurrent m user current := by
  rw [run_config]
  rfl

theorem ofNat_length (h : q.length ≤ maxCpm.toNat) :
    (UInt32.ofNat q.length).toNat = q.length :=
  UInt32.toNat_ofNat_of_lt' (h.trans_lt maxCpm.toNat_lt)

/-- A window that is not overfull refuses when it is full. -/
theorem checkRate_eq (h : (expire window now q).length ≤ maxCpm.toNat) :
    checkRate now maxCpm q =
      if (expire window now q).length = maxCpm.toNat then
        (.rateExceeded maxCpm maxCpm (retryAfter now (expire window now q)), expire window now q)
      else (.allowed, expire window now q ++ [now]) := by
  have hle : maxCpm ≤ UInt32.ofNat (expire window now q).length ↔
      (expire window now q).length = maxCpm.toNat := by
    rw [UInt32.le_iff_toNat_le, ofNat_length h]
    omega
  simp only [checkRate, hle]
  split
  next heq => rw [heq, UInt32.ofNat_toNat]
  next => rfl

theorem checkAndRecord_within {current : UInt32} (h : RateLimited m user maxCpm)
    (hc : overConcurrent m user current = false) (now : Nat) :
    checkAndRecord m now user current =
      ((checkRate now maxCpm (windowOf m user)).1,
        { m with
          rateWindows := m.rateWindows.insert user (checkRate now maxCpm (windowOf m user)).2 }) := by
  obtain ⟨hen, rfl, hpos⟩ := h
  simp only [checkAndRecord, hen, hc, hpos, if_true, Bool.false_eq_true, if_false]

theorem checkAndRecord_over {current : UInt32} (h : RateLimited m user maxCpm)
    (hc : overConcurrent m user current = true) (now : Nat) :
    checkAndRecord m now user current = (.concurrentExceeded current (limitsFor m user).1, m) := by
  simp only [checkAndRecord, h.enabled, hc, if_true]

/-- A call about another user leaves the window. -/
theorem windowOf_other {u : List Char} (hne : user ≠ u) (now : Nat) (current : UInt32) :
    windowOf (checkAndRecord m now u current).2 user = windowOf m user := by
  rw [checkAndRecord]
  split
  · split
    · rfl
    · split
      · rw [windowOf, AList.lookup_insert_ne hne, windowOf]
      · rfl
  · rfl

theorem windowOf_prune (m : UserLimitsManager) (now : Nat) (user : List Char) :
    windowOf (pruneIdleWindows m now).2 user =
      if idle window now (windowOf m user) then [] else windowOf m user := by
  rw [windowOf, pruneIdleWindows, lookup_sweep, windowOf]
  cases m.rateWindows.lookup user with
  | none => simp
  | some q =>
      rw [Option.bind_some]
      cases hq : idle window now q with
      | true => simp [hq]
      | false => simp [hq]

/-- The window stands for the allowed attempts and is never overfull. -/
structure Keeps (m : UserLimitsManager) (user : List Char) (maxCpm : UInt32) (now : Nat)
    (all : List Nat) : Prop where
  follows : Follows window now (windowOf m user) all
  room : (windowOf m user).length ≤ maxCpm.toNat

theorem Keeps.expire_le (h : Keeps m user maxCpm now all) :
    (expire window now (windowOf m user)).length ≤ maxCpm.toNat :=
  (List.dropWhile_sublist _).length_le.trans h.room

theorem attempt_keeps (hm : RateLimited m user maxCpm) (h : Keeps m user maxCpm now all)
    (current : UInt32) :
    Keeps (checkAndRecord m now user current).2 user maxCpm now
      (all ++ if (checkAndRecord m now user current).1 = .allowed then [now] else []) := by
  cases hc : overConcurrent m user current with
  | true =>
      rw [checkAndRecord_over hm hc, if_neg (fun he => by cases he), List.append_nil]
      exact h
  | false =>
      rw [checkAndRecord_within hm hc, checkRate_eq h.expire_le]
      split
      next =>
        rw [if_neg (fun he => by cases he), List.append_nil]
        refine ⟨?_, ?_⟩
        · rw [windowOf, AList.lookup_insert]
          exact h.follows.expired
        · rw [windowOf, AList.lookup_insert]
          exact h.expire_le
      next hne =>
        rw [if_pos rfl]
        refine ⟨?_, ?_⟩
        · rw [windowOf, AList.lookup_insert]
          exact h.follows.expired.push
        · rw [windowOf, AList.lookup_insert, Option.getD_some, List.length_append,
            List.length_singleton]
          exact Nat.lt_of_le_of_ne h.expire_le hne

theorem step_keeps (hm : RateLimited m user maxCpm) {e : Nat × Call}
    (h : Keeps m user maxCpm e.1 all) :
    Keeps (step m e).2 user maxCpm e.1 (all ++ (allowedAt user (e, (step m e).1)).toList) := by
  obtain ⟨now, call⟩ := e
  cases call with
  | pruneIdleWindows =>
      change Keeps (pruneIdleWindows m now).2 user maxCpm now (all ++ [])
      rw [List.append_nil]
      cases hidle : idle window now (windowOf m user) with
      | true =>
          refine ⟨?_, ?_⟩
          · rw [windowOf_prune, if_pos hidle]
            exact h.follows.drop hidle
          · rw [windowOf_prune, if_pos hidle]
            exact Nat.zero_le _
      | false =>
          refine ⟨?_, ?_⟩
          · rw [windowOf_prune, hidle]
            exact h.follows
          · rw [windowOf_prune, hidle]
            exact h.room
  | checkAndRecord u current =>
      by_cases hu : u = user
      · subst hu
        have hnote : (allowedAt u ((now, .checkAndRecord u current),
              some (checkAndRecord m now u current).1)).toList =
            if (checkAndRecord m now u current).1 = .allowed then [now] else [] := by
          cases (checkAndRecord m now u current).1 with
          | allowed => simp [allowedAt, Call.isBy]
          | concurrentExceeded => rfl
          | rateExceeded => rfl
        have hkeeps := attempt_keeps hm h current
        rw [← hnote] at hkeeps
        exact hkeeps
      · have hnote : allowedAt user ((now, .checkAndRecord u current),
            some (checkAndRecord m now u current).1) = none := by
          cases (checkAndRecord m now u current).1 with
          | allowed => simp [allowedAt, Call.isBy, hu]
          | concurrentExceeded => rfl
          | rateExceeded => rfl
        have hsame := windowOf_other (Ne.symm hu) now current (m := m)
        change Keeps (checkAndRecord m now u current).2 user maxCpm now
          (all ++ (allowedAt user ((now, .checkAndRecord u current),
            some (checkAndRecord m now u current).1)).toList)
        rw [hnote, Option.toList_none, List.append_nil]
        exact ⟨hsame ▸ h.follows, hsame ▸ h.room⟩

end Steps

/-- The answers to the attempts of a user, in order. -/
def answerTo (user : List Char) : (Nat × Call) × Option LimitDecision → Option LimitDecision
  | ((_, call), decision) => if call.isBy user then decision else none

def answers (m : UserLimitsManager) (user : List Char) (calls : List (Nat × Call)) :
    List LimitDecision :=
  (calls.zip (runAll step m calls).1).filterMap (answerTo user)

section Runs

variable {m : UserLimitsManager} {user : List Char} {maxCpm : UInt32} {now later : Nat}
  {calls : List (Nat × Call)}

theorem filterMap_trace_concat {α : Type} (f : (Nat × Call) × Option LimitDecision → Option α)
    (m : UserLimitsManager) (calls : List (Nat × Call)) (e : Nat × Call) :
    ((calls ++ [e]).zip (runAll step m (calls ++ [e])).1).filterMap f =
      (calls.zip (runAll step m calls).1).filterMap f ++
        (f (e, (step (runAll step m calls).2 e).1)).toList := by
  rw [runAll_concat, List.zip_append (runAll_length ..).symm, List.filterMap_append]
  rfl

theorem allowedTimes_concat (m : UserLimitsManager) (user : List Char) (calls : List (Nat × Call))
    (e : Nat × Call) :
    allowedTimes m user (calls ++ [e]) =
      allowedTimes m user calls ++
        (allowedAt user (e, (step (runAll step m calls).2 e).1)).toList :=
  filterMap_trace_concat (allowedAt user) m calls e

theorem answers_concat (m : UserLimitsManager) (user : List Char) (calls : List (Nat × Call))
    (e : Nat × Call) :
    answers m user (calls ++ [e]) =
      answers m user calls ++ (answerTo user (e, (step (runAll step m calls).2 e).1)).toList :=
  filterMap_trace_concat (answerTo user) m calls e

/-- The calls come in the order of time, the last of them by now. -/
structure Timed (now : Nat) (calls : List (Nat × Call)) : Prop where
  sorted : (calls.map Prod.fst).Pairwise (· ≤ ·)
  past : ∀ e ∈ calls, e.1 ≤ now

theorem Timed.of_concat {e : Nat × Call} (h : Timed now (calls ++ [e])) :
    Timed e.1 calls ∧ e.1 ≤ now := by
  obtain ⟨hsorted, hpast⟩ := h
  rw [List.map_append, List.pairwise_append] at hsorted
  refine ⟨⟨hsorted.1, ?_⟩, hpast e (List.mem_append_right _ (List.mem_singleton_self e))⟩
  intro e' he'
  exact hsorted.2.2 e'.1 (List.mem_map_of_mem he') e.1 (List.mem_singleton_self _)

theorem Timed.of_append {before after : List (Nat × Call)} {e : Nat × Call}
    (h : Timed now (before ++ e :: after)) : Timed e.1 before := by
  obtain ⟨hsorted, -⟩ := h
  rw [List.map_append, List.pairwise_append] at hsorted
  refine ⟨hsorted.1, ?_⟩
  intro e' he'
  exact hsorted.2.2 e'.1 (List.mem_map_of_mem he') e.1 List.mem_cons_self

theorem Timed.filter {p : Nat × Call → Bool} (h : Timed now calls) : Timed now (calls.filter p) where
  sorted := h.sorted.sublist (List.filter_sublist.map Prod.fst)
  past e he := h.past e (List.mem_of_mem_filter he)

theorem keeps_after (hm : RateLimited m user maxCpm) (hw : m.rateWindows = ∅)
    (ht : Timed now calls) :
    Keeps (runAll step m calls).2 user maxCpm now (allowedTimes m user calls) := by
  induction calls using List.reverseRecOn generalizing now with
  | nil =>
      have hnil : windowOf m user = [] := by
        rw [windowOf, hw]
        rfl
      change Keeps m user maxCpm now []
      refine ⟨?_, ?_⟩
      · rw [hnil]
        exact .nil
      · rw [hnil]
        exact Nat.zero_le _
  | append_singleton calls e ih =>
      obtain ⟨hbefore, hle⟩ := ht.of_concat
      rw [runAll_concat, allowedTimes_concat]
      have hstep := step_keeps (hm.run calls) (ih hbefore)
      exact ⟨hstep.follows.mono hle, hstep.room⟩

/-- The allowed attempts of the last minute. -/
def counted (m : UserLimitsManager) (user : List Char) (calls : List (Nat × Call)) (now : Nat) :
    List Nat :=
  recent window now (allowedTimes m user calls)

theorem counted_le (hm : RateLimited m user maxCpm) (hw : m.rateWindows = ∅)
    (ht : Timed now calls) : (counted m user calls now).length ≤ maxCpm.toNat := by
  have h := keeps_after hm hw ht
  rw [counted, ← h.follows.expire_eq]
  exact h.expire_le

/-- The answer is a function of the attempts allowed before. -/
theorem decisionAfter_eq (hm : RateLimited m user maxCpm) (hw : m.rateWindows = ∅)
    (ht : Timed now calls) (current : UInt32) :
    decisionAfter m calls now user current =
      if overConcurrent m user current then .concurrentExceeded current (limitsFor m user).1
      else if (counted m user calls now).length = maxCpm.toNat then
        .rateExceeded maxCpm maxCpm (retryAfter now (counted m user calls now))
      else .allowed := by
  have h := keeps_after hm hw ht
  rw [decisionAfter, counted, ← h.follows.expire_eq]
  cases hc : overConcurrent m user current with
  | true =>
      rw [checkAndRecord_over (hm.run calls) ((overConcurrent_run ..).trans hc), if_pos rfl,
        run_config]
      rfl
  | false =>
      rw [checkAndRecord_within (hm.run calls) ((overConcurrent_run ..).trans hc),
        checkRate_eq h.expire_le, if_neg Bool.false_ne_true]
      split
      next => rfl
      next => rfl

theorem refused_iff (hm : RateLimited m user maxCpm) (hw : m.rateWindows = ∅)
    (ht : Timed now calls) (current : UInt32) :
    refusedForRate (decisionAfter m calls now user current) = true ↔
      overConcurrent m user current = false ∧ (counted m user calls now).length = maxCpm.toNat := by
  rw [decisionAfter_eq hm hw ht]
  cases overConcurrent m user current with
  | true => simp [refusedForRate]
  | false =>
      by_cases hfull : (counted m user calls now).length = maxCpm.toNat
      · simp [hfull, refusedForRate]
      · simp [hfull, refusedForRate]

/-- An attempt that is allowed leaves room for itself in the last minute. -/
theorem counted_lt_of_allowed (hm : RateLimited m user maxCpm) (hw : m.rateWindows = ∅)
    (ht : Timed now calls) {current : UInt32}
    (h : decisionAfter m calls now user current = .allowed) :
    (counted m user calls now).length < maxCpm.toNat := by
  apply Nat.lt_of_le_of_ne (counted_le hm hw ht)
  intro hfull
  rw [decisionAfter_eq hm hw ht] at h
  cases hc : overConcurrent m user current with
  | true => simp [hc] at h
  | false => simp [hc, hfull] at h

theorem allowedAt_eq_some {e : Nat × Call} {d : Option LimitDecision} {t : Nat}
    (h : allowedAt user (e, d) = some t) :
    ∃ current, e = (t, .checkAndRecord user current) ∧ d = some .allowed := by
  obtain ⟨now, call⟩ := e
  cases call with
  | pruneIdleWindows =>
      cases d with
      | none => cases h
      | some d => cases d with
        | allowed => cases h
        | concurrentExceeded => cases h
        | rateExceeded => cases h
  | checkAndRecord u current =>
      cases d with
      | none => cases h
      | some d => cases d with
        | concurrentExceeded => cases h
        | rateExceeded => cases h
        | allowed =>
            by_cases hu : u = user
            · subst hu
              simp only [allowedAt, Call.isBy, decide_true, if_true, Option.some.injEq] at h
              exact ⟨current, by rw [h], rfl⟩
            · simp [allowedAt, Call.isBy, hu] at h

theorem allowed_in_interval_le (hm : RateLimited m user maxCpm) (hw : m.rateWindows = ∅)
    (ht : Timed now calls) (start : Nat) :
    (allowedTimes m user calls).countP (fun t => decide (start ≤ t ∧ t < start + window)) ≤
      maxCpm.toNat := by
  induction calls using List.reverseRecOn generalizing now with
  | nil => exact Nat.zero_le _
  | append_singleton calls e ih =>
      obtain ⟨hbefore, -⟩ := ht.of_concat
      rw [allowedTimes_concat, List.countP_append]
      cases hallowed : allowedAt user (e, (step (runAll step m calls).2 e).1) with
      | none => exact ih hbefore
      | some t =>
          obtain ⟨current, rfl, hd⟩ := allowedAt_eq_some hallowed
          have hlt : (counted m user calls t).length < maxCpm.toNat :=
            counted_lt_of_allowed hm hw hbefore (Option.some.inj hd)
          rw [Option.toList_some, List.countP_singleton]
          split
          next hin =>
            have hin' := of_decide_eq_true hin
            -- whatever else is in the interval is less than a minute old now
            have hle : (allowedTimes m user calls).countP
                (fun s => decide (start ≤ s ∧ s < start + window)) ≤
                  (counted m user calls t).length := by
              rw [counted, recent, ← List.countP_eq_length_filter]
              apply List.countP_mono_left
              intro s _ hs
              have hs' := of_decide_eq_true hs
              apply decide_eq_true
              omega
            omega
          next => exact ih hbefore

theorem pruning_irrelevant (hm : RateLimited m user maxCpm) (hw : m.rateWindows = ∅)
    (ht : Timed now calls) :
    allowedTimes m user calls = allowedTimes m user (calls.filter (·.2.isAttempt)) ∧
      answers m user calls = answers m user (calls.filter (·.2.isAttempt)) := by
  induction calls using List.reverseRecOn generalizing now with
  | nil => exact ⟨rfl, rfl⟩
  | append_singleton calls e ih =>
      obtain ⟨hbefore, -⟩ := ht.of_concat
      obtain ⟨hallowed, hanswers⟩ := ih hbefore
      obtain ⟨t, call⟩ := e
      cases call with
      | pruneIdleWindows =>
          have hdrop : (calls ++ [(t, Call.pruneIdleWindows)]).filter (·.2.isAttempt) =
              calls.filter (·.2.isAttempt) := by
            rw [List.filter_append]
            exact List.append_nil _
          rw [hdrop, allowedTimes_concat, answers_concat, ← hallowed, ← hanswers]
          exact ⟨List.append_nil _, List.append_nil _⟩
      | checkAndRecord u current =>
          have hkeep : (calls ++ [(t, Call.checkAndRecord u current)]).filter (·.2.isAttempt) =
              calls.filter (·.2.isAttempt) ++ [(t, .checkAndRecord u current)] :=
            List.filter_append ..
          rw [hkeep, allowedTimes_concat, allowedTimes_concat, answers_concat, answers_concat,
            ← hallowed, ← hanswers]
          by_cases hu : u = user
          · subst hu
            -- the answer depends on the attempts allowed before, and these are the same
            have hsame : decisionAfter m calls t u current =
                decisionAfter m (calls.filter (·.2.isAttempt)) t u current := by
              rw [decisionAfter_eq hm hw hbefore, decisionAfter_eq hm hw hbefore.filter, counted,
                counted, ← hallowed]
            have hstep : (step (runAll step m calls).2 (t, .checkAndRecord u current)).1 =
                (step (runAll step m (calls.filter (·.2.isAttempt))).2
                  (t, .checkAndRecord u current)).1 :=
              congrArg some hsame
            rw [hstep]
            exact ⟨rfl, rfl⟩
          · have hnone (d : Option LimitDecision) :
                allowedAt user ((t, .checkAndRecord u current), d) = none ∧
                  answerTo user ((t, .checkAndRecord u current), d) = none := by
              refine ⟨?_, by simp [answerTo, Call.isBy, hu]⟩
              cases h : allowedAt user ((t, .checkAndRecord u current), d) with
              | none => rfl
              | some s =>
                  obtain ⟨_, heq, -⟩ := allowedAt_eq_some h
                  cases heq
                  exact absurd rfl hu
            rw [(hnone _).1, (hnone _).1, (hnone _).2, (hnone _).2]
            exact ⟨rfl, rfl⟩

/-- Two attempts of the user with none of that user between them. -/
structure NextAttempt (user : List Char) (calls before : List (Nat × Call)) (now : Nat)
    (current : UInt32) (between : List (Nat × Call)) (later : Nat) (current' : UInt32)
    (after : List (Nat × Call)) : Prop where
  split : calls = (before ++ (now, .checkAndRecord user current) :: between) ++
    (later, .checkAndRecord user current') :: after
  quiet : ∀ e ∈ between, e.2.isBy user = false

theorem NextAttempt.timed {now' : Nat} {before between after : List (Nat × Call)}
    {current current' : UInt32}
    (h : NextAttempt user calls before now current between later current' after)
    (ht : Timed now' calls) :
    Timed now before ∧ Timed later (before ++ (now, .checkAndRecord user current) :: between) := by
  rw [h.split] at ht
  have hlater := ht.of_append
  exact ⟨hlater.of_append, hlater⟩

theorem allowedTimes_quiet (m : UserLimitsManager) (calls : List (Nat × Call))
    {between : List (Nat × Call)} (h : ∀ e ∈ between, e.2.isBy user = false) :
    allowedTimes m user (calls ++ between) = allowedTimes m user calls := by
  induction between using List.reverseRecOn with
  | nil => rw [List.append_nil]
  | append_singleton between e ih =>
      rw [← List.append_assoc, allowedTimes_concat,
        ih fun e he => h e (List.mem_append_left _ he)]
      cases hallowed : allowedAt user (e, (step (runAll step m (calls ++ between)).2 e).1) with
      | none => exact List.append_nil _
      | some t =>
          obtain ⟨current, rfl, -⟩ := allowedAt_eq_some hallowed
          have hby := h _ (List.mem_append_right _ (List.mem_singleton_self _))
          exact absurd hby (by simp [Call.isBy])

/-- After a refusal and no other attempt, the same attempts are counted. -/
theorem counted_next {now' : Nat} {before between after : List (Nat × Call)}
    {current current' : UInt32}
    (h : NextAttempt user calls before now current between later current' after)
    (ht : Timed now' calls)
    (hd : refusedForRate (decisionAfter m before now user current) = true) :
    counted m user (before ++ (now, .checkAndRecord user current) :: between) later =
      recent window later (counted m user before now) := by
  have hle : now ≤ later :=
    (h.timed ht).2.past _ (List.mem_append_right _ List.mem_cons_self)
  have hsame : allowedTimes m user (before ++ [(now, .checkAndRecord user current)]) =
      allowedTimes m user before := by
    rw [allowedTimes_concat]
    cases hallowed : allowedAt user ((now, .checkAndRecord user current),
        (step (runAll step m before).2 (now, .checkAndRecord user current)).1) with
    | none => exact List.append_nil _
    | some t =>
        obtain ⟨-, -, hd'⟩ := allowedAt_eq_some hallowed
        rw [decisionAfter, Option.some.inj hd'] at hd
        cases hd
  have hquiet := allowedTimes_quiet m (before ++ [(now, .checkAndRecord user current)]) h.quiet
  rw [List.append_assoc, hsame] at hquiet
  rw [counted, counted, recent_recent hle, ← hquiet]
  rfl

/-- A full minute is full again later exactly as long as the oldest attempt counts. -/
theorem full_later {q : List Nat} {oldest : Nat} (hq : q.Pairwise (· ≤ ·))
    (hold : q.head? = some oldest) :
    (recent window later q).length = q.length ↔ later ≤ oldest + window := by
  cases q with
  | nil => cases hold
  | cons t rest =>
      obtain rfl : t = oldest := Option.some.inj hold
      rw [List.pairwise_cons] at hq
      constructor
      · intro hlen
        by_contra hlt
        have hdrop : recent window later (t :: rest) = recent window later rest :=
          List.filter_cons_of_neg (by simp; omega)
        have hle : (recent window later rest).length ≤ rest.length := List.length_filter_le ..
        rw [hdrop, List.length_cons] at hlen
        omega
      · intro hle
        rw [recent_eq_self]
        intro s hs
        rcases List.mem_cons.mp hs with rfl | hs
        · omega
        · have := hq.1 s hs
          omega

theorem counted_sorted (hm : RateLimited m user maxCpm) (hw : m.rateWindows = ∅)
    (ht : Timed now calls) :
    (counted m user calls now).Pairwise (· ≤ ·) ∧ ∀ t ∈ counted m user calls now, t ≤ now := by
  have h := (keeps_after hm hw ht).follows
  rw [counted, ← h.expire_eq]
  exact ⟨h.expired.sorted, h.expired.past⟩

/-- The next attempt after a refusal is refused again exactly as long as the
oldest attempt that was counted still counts. -/
theorem refused_again_iff (hm : RateLimited m user maxCpm) (hw : m.rateWindows = ∅) {now' : Nat}
    {before between after : List (Nat × Call)} {current current' : UInt32} {oldest : Nat}
    (h : NextAttempt user calls before now current between later current' after)
    (ht : Timed now' calls)
    (hd : refusedForRate (decisionAfter m before now user current) = true)
    (hold : (counted m user before now).head? = some oldest) :
    refusedForRate (decisionAfter m (before ++ (now, .checkAndRecord user current) :: between) later
        user current') = true ↔
      overConcurrent m user current' = false ∧ later ≤ oldest + window := by
  obtain ⟨hbefore, hlater⟩ := h.timed ht
  have hfull := ((refused_iff hm hw hbefore current).mp hd).2
  rw [refused_iff hm hw hlater, counted_next h ht hd, ← hfull,
    full_later (counted_sorted hm hw hbefore).1 hold]

end Runs

/-- What the limiter promises about the calls of one user. -/
structure RateContract (m : UserLimitsManager) (user : List Char) (maxCpm : UInt32)
    (calls : List (Nat × Call)) : Prop where
  bounded : ∀ start, (allowedTimes m user calls).countP
    (fun t => decide (start ≤ t ∧ t < start + window)) ≤ maxCpm.toNat
  justified : ∀ before now current after,
    calls = before ++ (now, .checkAndRecord user current) :: after →
    refusedForRate (decisionAfter m before now user current) = true →
    (counted m user before now).length = maxCpm.toNat
  unpruned : answers m user calls = answers m user (calls.filter (·.2.isAttempt))
  retry : ∀ before now current between later current' after c l r,
    NextAttempt user calls before now current between later current' after →
    decisionAfter m before now user current = .rateExceeded c l r → now + r * second ≤ later →
    refusedForRate (decisionAfter m (before ++ (now, .checkAndRecord user current) :: between) later
      user current') = false

/-- A full minute is met by two attempts in turn, the second a whole number of
seconds after the first and exactly a minute after the oldest attempt counted. -/
def BoundaryRetry (m : UserLimitsManager) (user : List Char) (maxCpm : UInt32)
    (calls : List (Nat × Call)) : Prop :=
  ∃ before now current between later current' after oldest k,
    NextAttempt user calls before now current between later current' after ∧
    overConcurrent m user current = false ∧ overConcurrent m user current' = false ∧
    (counted m user before now).length = maxCpm.toNat ∧
    (counted m user before now).head? = some oldest ∧
    later = oldest + window ∧ later = now + k * second ∧ 0 < k

section Contract

variable {m : UserLimitsManager} {user : List Char} {maxCpm : UInt32} {now : Nat}
  {calls : List (Nat × Call)}

theorem retryAfter_eq {q : List Nat} {oldest : Nat} (hold : q.head? = some oldest) :
    retryAfter now q = max (60 - (now - oldest) / second) 1 := by
  rw [retryAfter, hold]
  rfl

/-- A retry that honours the announced delay and still finds the oldest attempt
counted comes exactly a minute after it, a whole number of seconds late. -/
theorem boundary_of_early {oldest later r : Nat} (hr : r = max (60 - (now - oldest) / second) 1)
    (hold : oldest ≤ now) (hnow : now ≤ oldest + window) (hwait : now + r * second ≤ later)
    (hearly : later ≤ oldest + window) :
    later = oldest + window ∧ later = now + (60 - (now - oldest) / second) * second ∧
      0 < 60 - (now - oldest) / second := by
  simp only [second, window] at *
  omega

theorem retryAfter_of_whole {oldest k : Nat} (hold : oldest ≤ now)
    (h : now + k * second = oldest + window) (hk : 0 < k) :
    max (60 - (now - oldest) / second) 1 = k := by
  simp only [second, window] at *
  omega

theorem rate_contract_iff_no_boundary_retry (hm : RateLimited m user maxCpm)
    (hw : m.rateWindows = ∅) (ht : Timed now calls) :
    RateContract m user maxCpm calls ↔ ¬ BoundaryRetry m user maxCpm calls := by
  constructor
  · rintro h ⟨before, now', current, between, later, current', after, oldest, k, hnext, hc, hc', hfull,
      hold, hlater, hk, hpos⟩
    have hbefore := (hnext.timed ht).1
    have hpast := (counted_sorted hm hw hbefore).2 oldest (List.mem_of_mem_head? hold)
    have hd : decisionAfter m before now' user current = .rateExceeded maxCpm maxCpm k := by
      rw [decisionAfter_eq hm hw hbefore, if_neg (by simp [hc]), if_pos hfull, retryAfter_eq hold,
        retryAfter_of_whole hpast (hk.symm.trans hlater) hpos]
    have hfree := h.retry _ _ _ _ _ _ _ _ _ _ hnext hd hk.ge
    have hagain := (refused_again_iff hm hw hnext ht (by rw [hd]; rfl) hold).mpr ⟨hc', hlater.le⟩
    rw [hfree] at hagain
    cases hagain
  · intro hno
    refine ⟨allowed_in_interval_le hm hw ht, ?_, (pruning_irrelevant hm hw ht).2, ?_⟩
    · rintro before now' current after rfl hd
      exact ((refused_iff hm hw ht.of_append current).mp hd).2
    · intro before now' current between later current' after c l r hnext hd hwait
      obtain ⟨hbefore, hlater⟩ := hnext.timed ht
      have hrefused : refusedForRate (decisionAfter m before now' user current) = true := by
        rw [hd]
        rfl
      obtain ⟨hc, hfull⟩ := (refused_iff hm hw hbefore current).mp hrefused
      rw [← Bool.not_eq_true]
      intro hagain
      have hne : counted m user before now' ≠ [] := by
        intro hnil
        rw [hnil] at hfull
        exact absurd hm.pos (by rw [UInt32.lt_iff_toNat_lt, ← hfull]; exact lt_irrefl _)
      obtain ⟨oldest, hold⟩ := Option.ne_none_iff_exists'.mp (mt List.head?_eq_none_iff.mp hne)
      have hmem := List.mem_of_mem_head? hold
      obtain ⟨hc', hearly⟩ := (refused_again_iff hm hw hnext ht hrefused hold).mp hagain
      have hr : r = max (60 - (now' - oldest) / second) 1 := by
        rw [decisionAfter_eq hm hw hbefore, if_neg (by simp [hc]), if_pos hfull] at hd
        cases hd
        exact retryAfter_eq hold
      obtain ⟨hexact, hwhole, hpos⟩ := boundary_of_early hr
        ((counted_sorted hm hw hbefore).2 oldest hmem) (by have := (mem_recent.mp hmem).2; omega)
        hwait hearly
      exact hno ⟨before, now', current, between, later, current', after, oldest, _, hnext, hc, hc',
        hfull, hold, hexact, hwhole, hpos⟩

end Contract

/-- One call a minute for everyone, and no call made yet. -/
def oneCallAMinute : UserLimitsManager := ⟨true, (0, 1), ∅, ∅⟩

theorem oneCallAMinute_limited : RateLimited oneCallAMinute ['a'] 1 := ⟨rfl, rfl, by decide⟩

/-- Three attempts, each of them half a minute after the one before. -/
def halfMinutes : List (Nat × Call) :=
  [(0, .checkAndRecord ['a'] 0), (30 * second, .checkAndRecord ['a'] 0),
    (60 * second, .checkAndRecord ['a'] 0)]

theorem halfMinutes_timed : Timed (60 * second) halfMinutes := ⟨by decide, by decide⟩

theorem rate_contract_iff_no_boundary_retry_halfMinutes :
    RateContract oneCallAMinute ['a'] 1 halfMinutes ↔
      ¬ BoundaryRetry oneCallAMinute ['a'] 1 halfMinutes :=
  rate_contract_iff_no_boundary_retry oneCallAMinute_limited rfl halfMinutes_timed

/-- The second attempt is told to come back after thirty seconds; the third does, and is refused. -/
theorem rate_contract_fails_after_announced_delay :
    ¬ RateContract oneCallAMinute ['a'] 1 halfMinutes := by
  intro h
  have hfree := h.retry [(0, .checkAndRecord ['a'] 0)] (30 * second) 0 [] (60 * second) 0 [] 1 1 30
    ⟨rfl, List.forall_mem_nil _⟩ (by decide) (by decide)
  revert hfree
  decide

end NixiSbc.UserLimits
