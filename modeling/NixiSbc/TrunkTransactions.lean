import NixiSbc.StateRuns
import NixiSbc.TrunkRegister

namespace NixiSbc.TrunkTransactions

open RawSip StateRuns TrunkRegister

inductive Task
  | health
  | register
  deriving DecidableEq

/-- The request that waits, and what has come through its channel. The entry of the pending
table is there as long as nothing has. -/
inductive Waiting
  | idle
  | probe (got : Option Response)
  | first (expires : UInt32) (got : Option Response)
  | second (expires : UInt32) (got : Option Response)

inductive Verdict
  | probe (up : Bool)
  | register (outcome : RegisterOutcome)
  deriving DecidableEq

/-- The outcome of one wait: the answer it was taken from, or none after a timeout. A
challenge is no verdict yet. -/
structure Report where
  call : Nat
  cseq : UInt32
  answer : Option Response
  verdict : Option Verdict

structure Line where
  call : Nat
  cseq : UInt32
  waiting : Waiting
  reports : List Report

def newLine : Line := ⟨0, 0, .idle, []⟩

inductive Event
  | send (expires : UInt32)
  | response (r : Response)
  | take
  | timeout

def isUp (raw : List Char) : Bool := 200 ≤ parseStatus raw ∧ parseStatus raw < 500

def Line.report (l : Line) (answer : Option Response) (verdict : Option Verdict) : Line :=
  { l with reports := l.reports ++ [⟨l.call, l.cseq, answer, verdict⟩] }

def Line.finish (l : Line) (answer : Option Response) (verdict : Verdict) : Line :=
  { l.report answer (some verdict) with waiting := .idle }

/-- A response finds the channel by its Call-ID alone, and the first one closes it. -/
def Line.deliver (l : Line) (r : Response) : Line :=
  if r.call = l.call then
    match l.waiting with
    | .probe none => { l with waiting := .probe (some r) }
    | .first expires none => { l with waiting := .first expires (some r) }
    | .second expires none => { l with waiting := .second expires (some r) }
    | _ => l
  else l

section

variable (U : Lowering) (task : Task)

/-- A probe has a Call-ID of its own, and every REGISTER of a loop has the same. -/
def step (l : Line) : Event → Line
  | .send expires =>
      match l.waiting with
      | .idle =>
          match task with
          | .health => { l with call := l.call + 1, cseq := 1, waiting := .probe none }
          | .register => { l with cseq := l.cseq + 1, waiting := .first expires none }
      | _ => l
  | .response r => l.deliver r
  | .take =>
      match l.waiting with
      | .probe (some r) => l.finish (some r) (.probe (isUp r.raw))
      | .first expires (some r) =>
          match firstAnswer U expires r.raw with
          | some outcome => l.finish (some r) (.register outcome)
          | none => { l.report (some r) none with cseq := l.cseq + 1, waiting := .second expires none }
      | .second expires (some r) => l.finish (some r) (.register (secondAnswer U expires r.raw))
      | _ => l
  | .timeout =>
      match l.waiting with
      | .idle => l
      | .probe _ => l.finish none (.probe false)
      | _ => l.finish none (.register .timeout)

end

/-- A final response to the request that waits. -/
def Answers (l : Line) (r : Response) : Prop := 200 ≤ r.status ∧ r.cseq = l.cseq

def Open (l : Line) (r : Response) : Prop :=
  r.call = l.call ∧ (l.waiting = .probe none ∨ (∃ expires, l.waiting = .first expires none) ∨
    ∃ expires, l.waiting = .second expires none)

/-- A response that reaches a request that waits is a final one to it. -/
def Timely (l : Line) : Event → Prop
  | .response r => Open l r → Answers l r
  | _ => True

/-- The outcome is taken from a final response to its own request, or is a timeout. -/
def Own (w : Report) : Prop :=
  ∀ r, w.answer = some r → r.call = w.call ∧ 200 ≤ r.status ∧ r.cseq = w.cseq

/-- What the verdict says is what the answer says. -/
def Honest (w : Report) : Prop :=
  (∀ s, w.verdict = some (.register (.refused s)) → ∃ r, w.answer = some r ∧ r.status = s ∧ s ≠ 200) ∧
    (w.verdict = some (.probe false) → ∀ r, w.answer = some r → ¬(200 ≤ r.status ∧ r.status < 500))

def got : Waiting → Option Response
  | .idle => none
  | .probe r | .first _ r | .second _ r => r

structure Inv (l : Line) : Prop where
  own : ∀ w ∈ l.reports, Own w
  honest : ∀ w ∈ l.reports, Honest w
  got : ∀ r, got l.waiting = some r → r.call = l.call ∧ Answers l r

variable {U : Lowering} {task : Task} {l : Line} {r : Response}

theorem isUp_raw (r : Response) : isUp r.raw = decide (200 ≤ r.status ∧ r.status < 500) := by
  rw [isUp, parseStatus_raw]

theorem Inv.report (h : Inv l) {answer : Option Response} {verdict : Option Verdict} {waiting : Waiting}
    {cseq : UInt32} (hown : Own ⟨l.call, l.cseq, answer, verdict⟩) (hhonest : Honest ⟨l.call, l.cseq, answer, verdict⟩)
    (hgot : TrunkTransactions.got waiting = none) :
    Inv { l.report answer verdict with cseq := cseq, waiting := waiting } where
  own w hw := by
    rcases List.mem_append.mp hw with hw | hw
    · exact h.own w hw
    · rw [List.mem_singleton.mp hw]
      exact hown
  honest w hw := by
    rcases List.mem_append.mp hw with hw | hw
    · exact h.honest w hw
    · rw [List.mem_singleton.mp hw]
      exact hhonest
  got r hr := by
    rw [hgot] at hr
    cases hr

theorem Inv.finish (h : Inv l) {answer : Option Response} {verdict : Verdict}
    (hown : Own ⟨l.call, l.cseq, answer, some verdict⟩) (hhonest : Honest ⟨l.call, l.cseq, answer, some verdict⟩) :
    Inv (l.finish answer verdict) :=
  h.report hown hhonest rfl

theorem Inv.own_got (h : Inv l) (hr : TrunkTransactions.got l.waiting = some r) (verdict : Option Verdict) :
    Own ⟨l.call, l.cseq, some r, verdict⟩ := by
  rintro _ ⟨⟩
  exact h.got r hr

theorem Inv.deliver (h : Inv l) (ha : Open l r → Answers l r) : Inv (l.deliver r) := by
  have hopen (waiting : Waiting) (hgot : TrunkTransactions.got waiting = some r) (hr : Open l r) :
      Inv { l with waiting := waiting } := by
    refine ⟨h.own, h.honest, fun r' hr' => ?_⟩
    obtain rfl : r = r' := Option.some.inj (hgot.symm.trans hr')
    exact ⟨hr.1, ha hr⟩
  rw [Line.deliver]
  split
  next hcall =>
    split
    next hw => exact hopen _ rfl ⟨hcall, .inl hw⟩
    next expires hw => exact hopen _ rfl ⟨hcall, .inr (.inl ⟨expires, hw⟩)⟩
    next expires hw => exact hopen _ rfl ⟨hcall, .inr (.inr ⟨expires, hw⟩)⟩
    next => exact h
  next => exact h

theorem honest_timeout {call : Nat} {cseq : UInt32} {verdict : Verdict}
    (h : ∀ s, verdict ≠ .register (.refused s)) : Honest ⟨call, cseq, none, some verdict⟩ :=
  ⟨fun s hs => absurd (Option.some.inj hs) (h s), fun _ _ hr => by cases hr⟩

theorem honest_probe {call : Nat} {cseq : UInt32} :
    Honest ⟨call, cseq, some r, some (.probe (isUp r.raw))⟩ := by
  constructor
  · rintro s ⟨⟩
  · intro hverdict r' hr'
    obtain rfl : r = r' := Option.some.inj hr'
    have hdown : isUp r.raw = false := by
      injection Option.some.inj hverdict
    rw [isUp_raw] at hdown
    exact of_decide_eq_false hdown

theorem honest_register {call : Nat} {cseq : UInt32} {outcome : RegisterOutcome}
    (h : ∀ s, outcome = .refused s → parseStatus r.raw = s ∧ s ≠ 200) :
    Honest ⟨call, cseq, some r, some (.register outcome)⟩ := by
  constructor
  · intro s hs
    injection Option.some.inj hs with houtcome
    obtain ⟨hstatus, hne⟩ := h s houtcome
    exact ⟨r, rfl, by rw [← hstatus, parseStatus_raw], hne⟩
  · rintro ⟨⟩

theorem Inv.take (h : Inv l) : Inv (step U task l .take) := by
  rw [step]
  split
  next r hw => exact h.finish (h.own_got (by rw [hw]; rfl) _) honest_probe
  next expires r hw =>
    have hgot : TrunkTransactions.got l.waiting = some r := by
      rw [hw]
      rfl
    split
    next outcome houtcome =>
      refine h.finish (h.own_got hgot _) (honest_register fun s hs => ?_)
      rw [hs] at houtcome
      exact status_of_first_refused houtcome
    next => exact h.report (h.own_got hgot _) ⟨nofun, nofun⟩ rfl
  next expires r hw =>
    exact h.finish (h.own_got (by rw [hw]; rfl) _) (honest_register fun _ hs => status_of_refused hs)
  next => exact h

theorem Inv.timeout (h : Inv l) : Inv (step U task l .timeout) := by
  rw [step]
  split
  next => exact h
  next => exact h.finish nofun (honest_timeout nofun)
  next => exact h.finish nofun (honest_timeout nofun)

theorem Inv.send (h : Inv l) (expires : UInt32) : Inv (step U task l (.send expires)) := by
  cases task with
  | health =>
      rw [step]
      split
      next => exact ⟨h.own, h.honest, nofun⟩
      next => exact h
  | register =>
      rw [step]
      split
      next => exact ⟨h.own, h.honest, nofun⟩
      next => exact h

theorem Inv.step (h : Inv l) {e : Event} (he : Timely l e) : Inv (step U task l e) := by
  cases e with
  | send expires => exact h.send expires
  | response r => exact h.deliver he
  | take => exact h.take
  | timeout => exact h.timeout

/-- Where every response that reaches a waiting request is a final one to it, every outcome
is the request's own: no other answer refuses a registration or takes a trunk down. -/
theorem outcomes_own (U : Lowering) (task : Task) (events : List Event)
    (hrun : Throughout (step U task) Timely newLine events) :
    ∀ w ∈ (events.foldl (step U task) newLine).reports, Own w ∧ Honest w := by
  have hstart : Inv newLine := ⟨nofun, nofun, nofun⟩
  have hstep (l : Line) (e : Event) (hl : Inv l) (he : Timely l e) : Inv (step U task l e) := hl.step he
  have hinv : Inv (events.foldl (step U task) newLine) := invariant_run (I := Inv) hstep hstart hrun
  exact fun w hw => ⟨hinv.own w hw, hinv.honest w hw⟩

def answer (call : Nat) (cseq : UInt32) (status : UInt16) (reason rest : String)
    (h : '\n' ∉ reason.toList) : Response :=
  ⟨call, cseq, status, reason.toList, rest.toList, h⟩

def challenge : Response :=
  answer 0 1 401 "Unauthorized" "WWW-Authenticate: Digest realm=\"trunk\", nonce=\"n1\"\r\n\r\n" (by decide)

/-- A registration that is challenged, and accepted with credentials. -/
def accepted : List Event :=
  [.send 300, .response challenge, .take, .response (answer 0 2 200 "OK" "Expires: 120\r\n\r\n" (by decide)), .take]

theorem outcomes_own_accepted :
    (accepted.foldl (step asciiOnly .register) newLine).reports.length = 2 ∧
      ∀ w ∈ (accepted.foldl (step asciiOnly .register) newLine).reports, Own w ∧ Honest w := by
  refine ⟨rfl, outcomes_own asciiOnly .register accepted ⟨trivial, fun _ => ?_, trivial, fun _ => ?_, trivial, trivial⟩⟩
  · exact ⟨by decide, rfl⟩
  · exact ⟨by decide, rfl⟩

/-- The trunk repeats its challenge before it accepts. -/
def challengedTwice : List Event :=
  [.send 300, .response challenge, .take, .response challenge, .take,
    .response (answer 0 2 200 "OK" "Expires: 120\r\n\r\n" (by decide))]

/-- The trunk answers 100 before 200. -/
def trying (call : Nat) : Response := answer call 1 100 "Trying" "\r\n" (by decide)

def triedFirst (call : Nat) : List Event :=
  [.send 300, .response (trying call), .take, .response (answer call 1 200 "OK" "\r\n" (by decide))]

def verdicts (task : Task) (events : List Event) : List (Option Verdict) :=
  (events.foldl (step asciiOnly task) newLine).reports.map (·.verdict)

theorem foreign_answer_refuses :
    verdicts .register challengedTwice = [none, some (.register (.refused 401))] ∧
      verdicts .register (triedFirst 0) = [some (.register (.refused 100))] ∧
        verdicts .health (triedFirst 1) = [some (.probe false)] ∧
          ¬∀ w ∈ ((triedFirst 0).foldl (step asciiOnly .register) newLine).reports, Own w := by
  refine ⟨rfl, rfl, rfl, fun h => ?_⟩
  have hreports : ((triedFirst 0).foldl (step asciiOnly .register) newLine).reports =
      [⟨0, 1, some (trying 0), some (.register (.refused 100))⟩] := rfl
  rw [hreports] at h
  have hfinal : 200 ≤ (trying 0).status := (h _ (List.mem_singleton_self _) (trying 0) rfl).2.1
  exact absurd hfinal (by decide)

end NixiSbc.TrunkTransactions
