import NixiSbc.TrunkHealth
import NixiSbc.TrunkRegister

namespace NixiSbc.HealthEvents

open Trunks TrunkHealth
open TrunkRegister (parseStatus)

section Events

/-- A trunk, with the events that were published for it, the last one first. -/
structure Watched where
  state : HealthState
  events : List (Health × UInt32)

inductive Note
  | failure (now later : Nat) (retryAfter : Option Nat)
  | success (now : Nat)
  | forgive (now : Nat)

/-- A time that the trunk asked for parks it. Any other failure is counted toward the cooldown. -/
def struck (later : Nat) (s : HealthState) : Option Nat → HealthState
  | some secs => parkFor later secs s
  | none => recordTrunkFailure later s

def noteTrunkFailure (now later : Nat) (retryAfter : Option Nat) (w : Watched) : Watched :=
  let before := unavailableFor w.state.toTrunkState now
  let s := struck later w.state retryAfter
  if (unavailableFor s.toTrunkState now).isSome ∧ before = none then
    ⟨s, (healthLabel s.toTrunkState now, s.consecutiveFailures) :: w.events⟩
  else ⟨s, w.events⟩

def noteTrunkSuccess (now : Nat) (w : Watched) : Watched :=
  let wasCooling := w.state.disabledUntil.any (now < ·)
  let s := recordSuccess w.state
  if wasCooling ∧ unavailableFor s.toTrunkState now = none then ⟨s, (.up, 0) :: w.events⟩ else ⟨s, w.events⟩

def note (w : Watched) : Note → Watched
  | .failure now later retryAfter => noteTrunkFailure now later retryAfter w
  | .success now => noteTrunkSuccess now w
  | .forgive _ => ⟨forgive w.state, w.events⟩

/-- When a note begins, and when it has been taken. -/
def Note.span : Note → Nat × Nat
  | .failure now later _ => (now, later)
  | .success now => (now, now)
  | .forgive now => (now, now)

/-- Notes taken one after the other, from a time on. -/
inductive InTurn : Nat → List Note → Prop
  | nil {clock : Nat} : InTurn clock []
  | cons {clock : Nat} {n : Note} {notes : List Note} : clock ≤ n.span.1 → n.span.1 ≤ n.span.2 →
      InTurn n.span.2 notes → InTurn clock (n :: notes)

def watch (id : TrunkId) (notes : List Note) : Watched := notes.foldl note ⟨.new id, []⟩

/-- Before each return there is a loss that was published after the last return. -/
inductive Alternate : List (Health × UInt32) → Prop
  | nil : Alternate []
  | lost {e : Health × UInt32} {events : List (Health × UInt32)} : e.1 ≠ .up → Alternate events →
      Alternate (e :: events)
  | back {e : Health × UInt32} {events : List (Health × UInt32)} : e.1 ≠ .up → Alternate (e :: events) →
      Alternate ((.up, 0) :: e :: events)

/-- The last event tells of a loss. -/
def Lost (events : List (Health × UInt32)) : Prop := ∃ e rest, events = e :: rest ∧ e.1 ≠ .up

/-- What holds between the notes: a trunk that is skipped was told of. -/
structure Told (clock : Nat) (w : Watched) : Prop where
  alternate : Alternate w.events
  lost : ∀ now, clock ≤ now → (unavailableFor w.state.toTrunkState now).isSome → Lost w.events

theorem unavailableFor_isSome (s : TrunkState) (now : Nat) :
    (unavailableFor s now).isSome ↔ s.disabledUntil.any (now < ·) = true ∨ s.parkedUntil.any (now < ·) = true := by
  rw [unavailableFor_eq]
  generalize s.disabledUntil = o
  generalize s.parkedUntil = o'
  cases o with
  | none =>
      cases o' with
      | none => simp [latest]
      | some e' => by_cases h' : now < e' <;> simp [latest, h']
  | some e =>
      cases o' with
      | none => by_cases h : now < e <;> simp [latest, h]
      | some e' => by_cases h : now < e <;> by_cases h' : now < e' <;> simp [latest, h, h']

/-- A pause that runs has run before. -/
theorem unavailableFor_mono {s : TrunkState} {now now' : Nat} (hle : now ≤ now')
    (h : (unavailableFor s now').isSome) :
    (unavailableFor s now).isSome := by
  have hany (o : Option Nat) (ho : o.any (now' < ·) = true) : o.any (now < ·) = true := by
    cases o with
    | none => cases ho
    | some e =>
        rw [Option.any_some, decide_eq_true_iff] at ho ⊢
        exact hle.trans_lt ho
  rw [unavailableFor_isSome] at h ⊢
  exact h.imp (hany _) (hany _)

theorem healthLabel_ne_up {s : TrunkState} {now : Nat} (h : (unavailableFor s now).isSome) :
    healthLabel s now ≠ .up := by
  rw [unavailableFor_isSome] at h
  rw [healthLabel]
  split_ifs with hparked hdown
  · exact Health.noConfusion
  · exact Health.noConfusion
  · exact absurd h (not_or.mpr ⟨hdown, hparked⟩)
  · exact absurd h (not_or.mpr ⟨hdown, hparked⟩)

theorem told_failure {clock now later : Nat} {retryAfter : Option Nat} {w : Watched} (h : Told clock w)
    (hnow : clock ≤ now) (hlater : now ≤ later) : Told later (noteTrunkFailure now later retryAfter w) := by
  rw [noteTrunkFailure]
  generalize struck later w.state retryAfter = s
  split_ifs with hnew
  · have hlabel := healthLabel_ne_up hnew.1
    exact ⟨.lost hlabel h.alternate, fun _ _ _ => ⟨_, _, rfl, hlabel⟩⟩
  · refine ⟨h.alternate, fun now' hle hskipped => ?_⟩
    have hafter := unavailableFor_mono (hlater.trans hle) hskipped
    have hbefore : (unavailableFor w.state.toTrunkState now).isSome := by
      rw [Option.isSome_iff_ne_none]
      exact fun hnone => hnew ⟨hafter, hnone⟩
    exact h.lost now hnow hbefore

theorem told_success {clock now : Nat} {w : Watched} (h : Told clock w) (hnow : clock ≤ now) :
    Told now (noteTrunkSuccess now w) := by
  rw [noteTrunkSuccess]
  split_ifs with hback
  · have hlost := h.lost now hnow ((unavailableFor_isSome _ _).mpr (.inl hback.1))
    obtain ⟨e, rest, hevents, hne⟩ := hlost
    have halternate := h.alternate
    rw [hevents] at halternate ⊢
    refine ⟨.back hne halternate, fun now' hle hskipped => ?_⟩
    have hsome := unavailableFor_mono hle hskipped
    rw [hback.2] at hsome
    cases hsome
  · refine ⟨h.alternate, fun now' hle hskipped => ?_⟩
    have hsome := unavailableFor_mono hle hskipped
    rw [unavailableFor_isSome] at hsome
    have hparked : w.state.parkedUntil.any (now < ·) = true := by
      rcases hsome with hnone | hparked
      · cases hnone
      · exact hparked
    exact h.lost now hnow ((unavailableFor_isSome _ _).mpr (.inr hparked))

theorem told_forgive {clock now : Nat} {w : Watched} (h : Told clock w) : Told now ⟨forgive w.state, w.events⟩ := by
  refine ⟨h.alternate, fun now' _ hskipped => ?_⟩
  rw [unavailableFor_isSome] at hskipped
  rcases hskipped with hnone | hnone
  · cases hnone
  · cases hnone

theorem told_note {clock : Nat} {w : Watched} (h : Told clock w) (n : Note) (hclock : clock ≤ n.span.1)
    (hspan : n.span.1 ≤ n.span.2) : Told n.span.2 (note w n) := by
  cases n with
  | failure now later retryAfter => exact told_failure h hclock hspan
  | success now => exact told_success h hclock
  | forgive now => exact told_forgive h

theorem told_watch {clock : Nat} {w : Watched} {notes : List Note} (h : Told clock w) (hnotes : InTurn clock notes) :
    Alternate (notes.foldl note w).events ∧
    ∀ now, clock ≤ now → (∀ n ∈ notes, n.span.2 ≤ now) →
      (unavailableFor (notes.foldl note w).state.toTrunkState now).isSome → Lost (notes.foldl note w).events := by
  induction hnotes generalizing w with
  | nil => exact ⟨h.alternate, fun now hclock _ => h.lost now hclock⟩
  | @cons clock n notes hclock hspan _ ih =>
      obtain ⟨halternate, hlost⟩ := ih (told_note h n hclock hspan)
      refine ⟨halternate, fun now _ hall => ?_⟩
      exact hlost now (hall n List.mem_cons_self) fun m hm => hall m (List.mem_cons_of_mem n hm)

/-- In every run of notes taken in turn a trunk that is not probed is announced as back only after it was announced as
lost, and while it is skipped the last announcement is of a loss. -/
theorem health_events (trunk : TrunkId) {notes : List Note} (hnotes : InTurn 0 notes) :
    Alternate (watch trunk notes).events ∧
    ∀ now, (∀ n ∈ notes, n.span.2 ≤ now) → (unavailableFor (watch trunk notes).state.toTrunkState now).isSome →
      Lost (watch trunk notes).events := by
  have hstart : Told 0 ⟨.new trunk, []⟩ := by
    refine ⟨.nil, fun now _ hskipped => ?_⟩
    cases hskipped
  obtain ⟨halternate, hlost⟩ := told_watch hstart hnotes
  exact ⟨halternate, fun now => hlost now (Nat.zero_le now)⟩

theorem health_events_parked :
    Alternate (watch 0 [.failure 1 2 (some 5), .success 3]).events ∧
    ∀ now, (∀ n ∈ [Note.failure 1 2 (some 5), .success 3], n.span.2 ≤ now) →
      (unavailableFor (watch 0 [.failure 1 2 (some 5), .success 3]).state.toTrunkState now).isSome →
      Lost (watch 0 [.failure 1 2 (some 5), .success 3]).events :=
  health_events 0 (.cons (by decide) (by decide) (.cons (by decide) (by decide) .nil))

end Events

section Probes

variable (id : TrunkId)

/-- A trunk, with what its health check remembers and the events that it published, the last one first. -/
structure Probed where
  state : HealthState
  events : List (Health × UInt32)
  wasUp : Bool
  everResponded : Bool

/-- What came in time for a probe, if it could be sent at all. -/
def isUp (answer : Option (List Char)) : Bool :=
  answer.any fun raw => 200 ≤ parseStatus raw ∧ parseStatus raw < 500

/-- A turn of the health check. A trunk that has never answered is left alone. -/
def healthTurn (now : Nat) (answer : Option (List Char)) (p : Probed) : Probed :=
  if isUp answer then
    if p.wasUp then { p with everResponded := true }
    else ⟨recordSuccess p.state, (.up, 0) :: p.events, true, true⟩
  else if p.everResponded then
    let s := recordTrunkFailure now p.state
    ⟨s, if p.wasUp then (.down, s.consecutiveFailures) :: p.events else p.events, false, true⟩
  else { p with wasUp := false }

/-- A turn of the health check, or an update of the trunk by anybody else. -/
inductive Turn
  | probe (now : Nat) (answer : Option (List Char))
  | update (u : Update)

def turn (p : Probed) : Turn → Probed
  | .probe now answer => healthTurn now answer p
  | .update u => { p with state := apply p.state u }

/-- The health check after its turns, the last one first. -/
def healthLoop : List Turn → Probed
  | [] => ⟨.new id, [], true, false⟩
  | t :: turns => turn (healthLoop turns) t

def Turn.up : Turn → Option Bool
  | .probe _ answer => some (isUp answer)
  | .update _ => none

def answers (turns : List Turn) : List Bool := turns.filterMap Turn.up

/-- What the probes count as: an answer after a missing one is a success, a missing one after any answer a failure. -/
def counted : List Turn → List Update
  | [] => []
  | .update u :: turns => u :: counted turns
  | .probe now answer :: turns =>
      if isUp answer then
        if (answers turns).headD true then counted turns else .success :: counted turns
      else if true ∈ answers turns then .failure now :: counted turns
      else counted turns

/-- What the events tell. A trunk is taken to be up at first. -/
def announced (events : List (Health × UInt32)) : Health := (events.head?.map (·.1)).getD .up

def status (up : Bool) : Health := if up then .up else .down

/-- What holds between the turns. -/
structure Probing (turns : List Turn) (p : Probed) : Prop where
  state : p.state = after id (counted turns)
  wasUp : p.wasUp = (answers turns).headD true
  everResponded : p.everResponded = decide (true ∈ answers turns)
  chain : p.events.IsChain fun e e' => e.1 ≠ e'.1
  told : if p.everResponded then announced p.events = status p.wasUp else p.events = []

variable {id} {turns : List Turn} {p : Probed}

theorem answers_probe (now : Nat) (answer : Option (List Char)) :
    answers (.probe now answer :: turns) = isUp answer :: answers turns := rfl

theorem chain_cons {events : List (Health × UInt32)} {e : Health × UInt32}
    (h : events.IsChain fun e e' => e.1 ≠ e'.1) (hne : ∀ e' ∈ events.head?, e.1 ≠ e'.1) :
    (e :: events).IsChain fun e e' => e.1 ≠ e'.1 :=
  List.isChain_cons.mpr ⟨hne, h⟩

/-- The event before says the opposite, if there is one. -/
theorem Probing.head_ne (h : Probing id turns p) : ∀ e ∈ p.events.head?, e.1 = status p.wasUp := by
  intro e he
  have htold := h.told
  split_ifs at htold with hever
  · rw [announced, Option.mem_def.mp he] at htold
    exact htold
  · rw [htold] at he
    cases he

theorem Probing.answered {now : Nat} {answer : Option (List Char)} (h : Probing id turns p)
    (hup : isUp answer = true) : Probing id (.probe now answer :: turns) (healthTurn now answer p) := by
  have hanswers : answers (.probe now answer :: turns) = true :: answers turns := by
    rw [answers_probe, hup]
  rw [healthTurn, if_pos hup]
  split_ifs with hwas
  · have hhead : (answers turns).headD true = true := h.wasUp ▸ hwas
    refine ⟨?_, ?_, ?_, h.chain, ?_⟩
    · rw [h.state, counted, if_pos hup, if_pos hhead]
    · rw [hanswers]
      exact hwas
    · rw [hanswers]
      exact (decide_eq_true List.mem_cons_self).symm
    · rw [if_pos rfl]
      have htold := h.told
      split_ifs at htold with hever
      · exact htold
      · rw [htold, hwas]
        rfl
  · have hhead : ¬ (answers turns).headD true = true := h.wasUp ▸ hwas
    refine ⟨?_, ?_, ?_, chain_cons h.chain ?_, ?_⟩
    · rw [h.state, counted, if_pos hup, if_neg hhead]
      rfl
    · rw [hanswers]
      rfl
    · rw [hanswers]
      exact (decide_eq_true List.mem_cons_self).symm
    · intro e he
      rw [h.head_ne e he, Bool.eq_false_iff.mpr hwas]
      exact Health.noConfusion
    · rw [if_pos rfl]
      rfl

theorem Probing.unanswered {now : Nat} {answer : Option (List Char)} (h : Probing id turns p)
    (hup : ¬ isUp answer = true) : Probing id (.probe now answer :: turns) (healthTurn now answer p) := by
  have hanswers : answers (.probe now answer :: turns) = false :: answers turns := by
    rw [answers_probe, Bool.eq_false_iff.mpr hup]
  have hmem : true ∈ answers (.probe now answer :: turns) ↔ true ∈ answers turns := by
    rw [hanswers, List.mem_cons]
    exact or_iff_right Bool.noConfusion
  have hwasUp : false = (answers (.probe now answer :: turns)).headD true := by
    rw [hanswers]
    rfl
  rw [healthTurn, if_neg hup]
  split_ifs with hever hwas
  · have hany : true ∈ answers turns := of_decide_eq_true (h.everResponded ▸ hever)
    refine ⟨?_, hwasUp, (decide_eq_true (hmem.mpr hany)).symm, chain_cons h.chain ?_, ?_⟩
    · rw [h.state, counted, if_neg hup, if_pos hany]
      rfl
    · intro e he
      rw [h.head_ne e he, hwas]
      exact Health.noConfusion
    · rw [if_pos rfl]
      rfl
  · have hany : true ∈ answers turns := of_decide_eq_true (h.everResponded ▸ hever)
    refine ⟨?_, hwasUp, (decide_eq_true (hmem.mpr hany)).symm, h.chain, ?_⟩
    · rw [h.state, counted, if_neg hup, if_pos hany]
      rfl
    · have htold := h.told
      rw [if_pos hever, Bool.eq_false_iff.mpr hwas] at htold
      rw [if_pos rfl]
      exact htold
  · have hnone : ¬ true ∈ answers turns := fun hany => hever (h.everResponded.trans (decide_eq_true hany))
    refine ⟨?_, hwasUp, ?_, h.chain, ?_⟩
    · rw [h.state, counted, if_neg hup, if_neg hnone]
    · rw [h.everResponded]
      exact decide_eq_decide.mpr hmem.symm
    · have htold := h.told
      rw [if_neg hever] at htold
      rw [if_neg hever]
      exact htold

theorem Probing.update (h : Probing id turns p) (u : Update) :
    Probing id (.update u :: turns) { p with state := apply p.state u } := by
  refine ⟨?_, h.wasUp, h.everResponded, h.chain, h.told⟩
  rw [h.state]
  rfl

theorem probing_healthLoop : Probing id turns (healthLoop id turns) := by
  induction turns with
  | nil => exact ⟨rfl, rfl, rfl, .nil, rfl⟩
  | cons t turns ih =>
      cases t with
      | probe now answer =>
          by_cases hup : isUp answer = true
          · exact ih.answered hup
          · exact ih.unanswered hup
      | update u => exact ih.update u

/-- The health check counts what its probes tell, never says the same twice in a row, and once the trunk has answered
its last event tells of the last probe. Of a trunk that never answered it says nothing. -/
theorem probes_announced (trunk : TrunkId) (turns : List Turn) :
    (healthLoop trunk turns).state = after trunk (counted turns) ∧
    (healthLoop trunk turns).events.IsChain (fun e e' => e.1 ≠ e'.1) ∧
    if true ∈ answers turns then announced (healthLoop trunk turns).events = status ((answers turns).headD true)
    else (healthLoop trunk turns).events = [] := by
  have h : Probing trunk turns (healthLoop trunk turns) := probing_healthLoop
  refine ⟨h.state, h.chain, ?_⟩
  have htold := h.told
  rw [h.everResponded, h.wasUp] at htold
  simpa only [decide_eq_true_iff] using htold

end Probes

end NixiSbc.HealthEvents
