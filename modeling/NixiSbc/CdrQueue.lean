import Mathlib
import NixiSbc.StateRuns

namespace NixiSbc.CdrQueue

open StateRuns

def cdrQueueCapacity : Nat := 8192

def batchMax : Nat := 64

/-- What stands in the queue: the records by the order in which they were sent, and the flush markers by
their calls. -/
inductive CdrMsg
  | record (k : Nat)
  | flush (f : Nat)

def recordOf : CdrMsg → Option Nat
  | .record k => some k
  | .flush _ => none

def records (queue : List CdrMsg) : List Nat := queue.filterMap recordOf

/-- The writer task between two steps of its loop. -/
inductive Writer
  | receiving
  | batching (batch flushes : List Nat)
  | storing (batch flushes : List Nat)
  | settling (batch flushes : List Nat)
  | acking (flushes : List Nat)

/-- A call of flush, and the records whose inserts had returned before it. -/
inductive FlushCall
  | idle
  | called (before : List Nat)
  | sent (before : List Nat)
  | acked (before : List Nat)
  | returned

structure State where
  queue : List CdrMsg
  sent : Nat
  adding : List Nat
  queued : List Nat
  queueLen : UInt64
  writer : Writer
  committed : List Nat
  stopping : Bool
  flushes : Nat → FlushCall

def init : State where
  queue := []
  sent := 0
  adding := []
  queued := []
  queueLen := 0
  writer := .receiving
  committed := []
  stopping := false
  flushes := fun _ => .idle

/-- The steps of the callers and of the writer. An insert is two of them: its record is in the queue before
it is counted. -/
inductive Action
  | trySend
  | fetchAdd (k : Nat)
  | callFlush (f : Nat)
  | sendFlush (f : Nat)
  | returnFlush (f : Nat)
  | receive
  | store (accepted : Bool)
  | fetchSub
  | ack
  | stop

namespace State

/-- A full queue refuses the record: it stays in the cache only. -/
def trySend (s : State) : State :=
  if s.queue.length < cdrQueueCapacity then
    { s with queue := s.queue ++ [.record s.sent], sent := s.sent + 1, adding := s.adding ++ [s.sent] }
  else s

def fetchAdd (s : State) (k : Nat) : State :=
  if k ∈ s.adding then
    { s with adding := s.adding.erase k, queued := s.queued ++ [k], queueLen := s.queueLen + 1 }
  else s

def callFlush (s : State) (f : Nat) : State :=
  match s.flushes f with
  | .idle => { s with flushes := Function.update s.flushes f (.called s.queued) }
  | _ => s

/-- The marker waits for room. -/
def sendFlush (s : State) (f : Nat) : State :=
  match s.flushes f with
  | .called before =>
      if s.queue.length < cdrQueueCapacity then
        { s with queue := s.queue ++ [.flush f], flushes := Function.update s.flushes f (.sent before) }
      else s
  | _ => s

def ackFlush (s : State) (f : Nat) : State :=
  match s.flushes f with
  | .sent before => { s with flushes := Function.update s.flushes f (.acked before) }
  | _ => s

def returnFlush (s : State) (f : Nat) : State :=
  match s.flushes f with
  | .acked _ => { s with flushes := Function.update s.flushes f .returned }
  | _ => s

/-- A record begins a batch, a marker in front of one is acknowledged at once; a batch takes what is there. -/
def receive (s : State) : State :=
  match s.writer with
  | .receiving =>
      match s.queue with
      | .record k :: rest => { s with queue := rest, writer := .batching [k] [] }
      | .flush f :: rest => { s with queue := rest }.ackFlush f
      | [] => s
  | .batching batch flushes =>
      if batch.length < batchMax then
        match s.queue with
        | .record k :: rest => { s with queue := rest, writer := .batching (batch ++ [k]) flushes }
        | .flush f :: rest => { s with queue := rest, writer := .batching batch (flushes ++ [f]) }
        | [] => { s with writer := .storing batch flushes }
      else { s with writer := .storing batch flushes }
  | _ => s

/-- The batch is stored in one transaction; a refusing store is asked again until the manager stops. -/
def store (s : State) (accepted : Bool) : State :=
  match s.writer with
  | .storing batch flushes =>
      if accepted then { s with committed := s.committed ++ batch, writer := .settling batch flushes }
      else if s.stopping then { s with writer := .settling batch flushes }
      else s
  | _ => s

def fetchSub (s : State) : State :=
  match s.writer with
  | .settling batch flushes =>
      { s with queueLen := s.queueLen - UInt64.ofNat batch.length, writer := .acking flushes }
  | _ => s

def ack (s : State) : State :=
  match s.writer with
  | .acking (f :: flushes) => { s with writer := .acking flushes }.ackFlush f
  | .acking [] => { s with writer := .receiving }
  | _ => s

end State

def step (s : State) : Action → State
  | .trySend => s.trySend
  | .fetchAdd k => s.fetchAdd k
  | .callFlush f => s.callFlush f
  | .sendFlush f => s.sendFlush f
  | .returnFlush f => s.returnFlush f
  | .receive => s.receive
  | .store accepted => s.store accepted
  | .fetchSub => s.fetchSub
  | .ack => s.ack
  | .stop => { s with stopping := true }

/-- The records that the writer has in its hands. -/
def Writer.batch : Writer → List Nat
  | .batching batch _ => batch
  | .storing batch _ => batch
  | .settling batch _ => batch
  | _ => []

/-- The records in the queue or in a batch that is not settled. -/
def unprocessed (s : State) : Nat := (records s.queue).length + s.writer.batch.length

/-- What the counter and the flushes promise of a step. -/
structure Sound (s : State) (a : Action) : Prop where
  kept : ∀ batch flushes, a = .fetchSub → s.writer = .settling batch flushes → batch.length ≤ s.queueLen.toNat
  room : ∀ k, a = .fetchAdd k → k ∈ s.adding → s.queueLen.toNat + 1 < 2 ^ 64
  counted : (step s a).adding = [] → (step s a).queueLen.toNat = unprocessed (step s a)
  flushed : ∀ f before, a = .returnFlush f → s.flushes f = .acked before → s.stopping = false →
    ∀ k ∈ before, k ∈ s.committed

/-- When the writer counts a batch off, no more inserts are between their send and their count than there are
records behind the batch. -/
def Settled (s : State) (a : Action) : Prop :=
  ∀ batch flushes, a = .fetchSub → s.writer = .settling batch flushes → s.adding.length ≤ (records s.queue).length

section Counter

variable {s : State}

/-- The counter lags behind by the inserts that are not counted yet. -/
structure Counted (s : State) : Prop where
  lag : s.queueLen.toNat + s.adding.length = unprocessed s
  room : s.queue.length ≤ cdrQueueCapacity
  small : s.writer.batch.length ≤ batchMax

theorem records_le (queue : List CdrMsg) : (records queue).length ≤ queue.length :=
  List.length_filterMap_le _ _

/-- There is always room for one more. -/
theorem Counted.bounded (h : Counted s) : s.queueLen.toNat + s.adding.length ≤ cdrQueueCapacity + batchMax := by
  rw [h.lag, unprocessed]
  exact Nat.add_le_add (Nat.le_trans (records_le _) h.room) h.small

theorem records_append (queue : List CdrMsg) (m : CdrMsg) :
    records (queue ++ [m]) = records queue ++ (recordOf m).toList := by
  rw [records, List.filterMap_append, records]
  cases m <;> rfl

theorem counted_init : Counted init := ⟨rfl, Nat.zero_le _, Nat.zero_le _⟩

theorem Counted.trySend (h : Counted s) : Counted s.trySend := by
  unfold State.trySend
  split
  next hroom =>
    refine ⟨?_, ?_, h.small⟩
    · have hlag := h.lag
      rw [unprocessed] at hlag ⊢
      simp only [records_append, recordOf, Option.toList_some, List.length_append, List.length_singleton]
      omega
    · rw [List.length_append]
      exact hroom
  next => exact h

theorem Counted.fetchAdd (h : Counted s) (k : Nat) : Counted (s.fetchAdd k) := by
  unfold State.fetchAdd
  split
  next hk =>
    have hbound := h.bounded
    have hpos := List.length_pos_of_mem hk
    refine ⟨?_, h.room, h.small⟩
    have hsum : (s.queueLen + 1).toNat = s.queueLen.toNat + 1 := by
      rw [UInt64.toNat_add]
      exact Nat.mod_eq_of_lt (by simp [cdrQueueCapacity, batchMax] at hbound ⊢; omega)
    have hlag := h.lag
    rw [unprocessed] at hlag ⊢
    simp only [hsum, List.length_erase_of_mem hk]
    omega
  next => exact h

theorem ackFlush_same (s : State) (f : Nat) : ∃ flushes, s.ackFlush f = { s with flushes } := by
  unfold State.ackFlush
  split
  next => exact ⟨_, rfl⟩
  next => exact ⟨_, rfl⟩

theorem Counted.ackFlush (h : Counted s) (f : Nat) : Counted (s.ackFlush f) := by
  obtain ⟨flushes, hsame⟩ := ackFlush_same s f
  rw [hsame]
  exact ⟨h.lag, h.room, h.small⟩

theorem Counted.flushes (h : Counted s) (f : Nat) :
    Counted (s.callFlush f) ∧ Counted (s.sendFlush f) ∧ Counted (s.returnFlush f) := by
  unfold State.callFlush State.sendFlush State.returnFlush
  refine ⟨?_, ?_, ?_⟩
  · split <;> exact ⟨h.lag, h.room, h.small⟩
  · split
    next before _ =>
      split
      next hroom =>
        refine ⟨?_, ?_, h.small⟩
        · have hlag := h.lag
          rw [unprocessed] at hlag ⊢
          rw [records_append]
          simpa [recordOf] using hlag
        · rw [List.length_append]
          exact hroom
      next => exact h
    next => exact h
  · split <;> exact ⟨h.lag, h.room, h.small⟩

/-- A record moves from the queue into the batch. -/
theorem Counted.receive (h : Counted s) : Counted s.receive := by
  obtain ⟨hlag, hroom, hsmall⟩ := h
  unfold State.receive
  rw [unprocessed] at hlag
  split
  next hwriter =>
    rw [hwriter] at hlag
    split
    next k rest hqueue =>
      rw [hqueue] at hlag hroom
      refine ⟨?_, Nat.le_of_succ_le hroom, (by decide : 1 ≤ batchMax)⟩
      rw [hlag]
      simp [unprocessed, records, recordOf, Writer.batch]
    next f rest hqueue =>
      rw [hqueue] at hlag hroom
      apply Counted.ackFlush
      refine ⟨?_, Nat.le_of_succ_le hroom, hsmall⟩
      rw [unprocessed, hwriter]
      exact hlag
    next => exact ⟨by rw [unprocessed, hwriter]; exact hlag, hroom, hsmall⟩
  next batch flushes hwriter =>
    rw [hwriter] at hlag hsmall
    split
    next hmore =>
      split
      next k rest hqueue =>
        rw [hqueue] at hlag hroom
        refine ⟨?_, Nat.le_of_succ_le hroom, ?_⟩
        · rw [hlag]
          simp only [unprocessed, records, recordOf, Writer.batch, List.filterMap_cons, List.length_cons,
            List.length_append, List.length_nil]
          omega
        · rw [Writer.batch, List.length_append]
          exact hmore
      next f rest hqueue =>
        rw [hqueue] at hlag hroom
        exact ⟨hlag, Nat.le_of_succ_le hroom, hsmall⟩
      next => exact ⟨hlag, hroom, hsmall⟩
    next => exact ⟨hlag, hroom, hsmall⟩
  next => exact ⟨hlag, hroom, hsmall⟩

theorem Counted.store (h : Counted s) (accepted : Bool) : Counted (s.store accepted) := by
  obtain ⟨hlag, hroom, hsmall⟩ := h
  unfold State.store
  rw [unprocessed] at hlag
  split
  next batch flushes hwriter =>
    rw [hwriter] at hlag hsmall
    split_ifs
    · exact ⟨hlag, hroom, hsmall⟩
    · exact ⟨hlag, hroom, hsmall⟩
    · refine ⟨?_, hroom, ?_⟩
      · rw [unprocessed, hwriter]
        exact hlag
      · rw [hwriter]
        exact hsmall
  next => exact ⟨hlag, hroom, hsmall⟩

/-- Counting a batch off that the counter has room for. -/
theorem Counted.fetchSub (h : Counted s)
    (hkept : ∀ batch flushes, s.writer = .settling batch flushes → batch.length ≤ s.queueLen.toNat) :
    Counted s.fetchSub := by
  obtain ⟨hlag, hroom, hsmall⟩ := h
  unfold State.fetchSub
  split
  next batch flushes hwriter =>
    have hle := hkept batch flushes hwriter
    rw [unprocessed] at hlag
    rw [hwriter] at hlag hsmall
    have hbatch : (UInt64.ofNat batch.length).toNat = batch.length :=
      UInt64.toNat_ofNat_of_lt (Nat.lt_of_le_of_lt hle s.queueLen.toNat_lt)
    refine ⟨?_, hroom, Nat.zero_le _⟩
    have hfits : UInt64.ofNat batch.length ≤ s.queueLen := by
      rw [UInt64.le_iff_toNat_le, hbatch]
      exact hle
    rw [unprocessed, UInt64.toNat_sub_of_le _ _ hfits, hbatch]
    simp only [Writer.batch, List.length_nil] at hlag ⊢
    omega
  next => exact ⟨hlag, hroom, hsmall⟩

theorem Counted.ack (h : Counted s) : Counted s.ack := by
  obtain ⟨hlag, hroom, hsmall⟩ := h
  unfold State.ack
  rw [unprocessed] at hlag
  split
  next f flushes hwriter =>
    rw [hwriter] at hlag
    apply Counted.ackFlush
    exact ⟨hlag, hroom, Nat.zero_le _⟩
  next hwriter =>
    rw [hwriter] at hlag
    exact ⟨hlag, hroom, Nat.zero_le _⟩
  next => exact ⟨hlag, hroom, hsmall⟩

/-- The counter is right as long as it is not counted below zero. -/
theorem Counted.step (h : Counted s) (a : Action)
    (hkept : ∀ batch flushes, a = .fetchSub → s.writer = .settling batch flushes → batch.length ≤ s.queueLen.toNat) :
    Counted (CdrQueue.step s a) := by
  cases a with
  | trySend => exact h.trySend
  | fetchAdd k => exact h.fetchAdd k
  | callFlush f => exact (h.flushes f).1
  | sendFlush f => exact (h.flushes f).2.1
  | returnFlush f => exact (h.flushes f).2.2
  | receive => exact h.receive
  | store accepted => exact h.store accepted
  | fetchSub => exact h.fetchSub fun batch flushes hwriter => hkept batch flushes rfl hwriter
  | ack => exact h.ack
  | stop => exact ⟨h.lag, h.room, h.small⟩

end Counter

section Flushes

/-- The records of a batch that is not stored yet. -/
def Writer.held : Writer → List Nat
  | .batching batch _ => batch
  | .storing batch _ => batch
  | _ => []

/-- The markers that are taken from the queue and not acknowledged yet. -/
def Writer.carried : Writer → List Nat
  | .receiving => []
  | .batching _ flushes => flushes
  | .storing _ flushes => flushes
  | .settling _ flushes => flushes
  | .acking flushes => flushes

def taken (s : State) : List Nat := s.committed ++ s.writer.held

def FlushCall.wasSent : FlushCall → Bool
  | .idle => false
  | .called _ => false
  | _ => true

/-- Where the records are that a flush waits for, while the store is not given up. -/
structure Delivered (s : State) : Prop where
  queued : ∀ k, k ∈ s.queued ∨ k ∈ s.adding → k ∈ taken s ++ records s.queue
  called : ∀ f before, s.flushes f = .called before → ∀ k ∈ before, k ∈ taken s ++ records s.queue
  sent : ∀ front f back before, s.queue = front ++ .flush f :: back → s.flushes f = .sent before →
    ∀ k ∈ before, k ∈ taken s ++ records front
  carried : ∀ f before, f ∈ s.writer.carried → s.flushes f = .sent before → ∀ k ∈ before, k ∈ taken s
  acked : ∀ f before, s.flushes f = .acked before → ∀ k ∈ before, k ∈ s.committed
  marked : ∀ f, .flush f ∈ s.queue ∨ f ∈ s.writer.carried → (s.flushes f).wasSent = true

variable {s : State}

theorem delivered_init : Delivered init where
  queued := fun _ h => absurd h (by simp [init])
  called := nofun
  sent := nofun
  carried := nofun
  acked := nofun
  marked := fun _ h => absurd h (by simp [init, Writer.carried])

/-- A call moves on, but not into the queue. -/
theorem Delivered.setFlush (h : Delivered s) (f : Nat) (c : FlushCall)
    (hsent : ∀ before, c ≠ .sent before) (hmarked : (s.flushes f).wasSent = true → c.wasSent = true)
    (hcalled : ∀ before, c = .called before → ∀ k ∈ before, k ∈ taken s ++ records s.queue)
    (hacked : ∀ before, c = .acked before → ∀ k ∈ before, k ∈ s.committed) :
    Delivered { s with flushes := Function.update s.flushes f c } := by
  constructor
  case queued => exact h.queued
  case called =>
    intro f' before hcall
    by_cases hf : f' = f
    · subst hf
      exact hcalled before ((Function.update_self ..).symm.trans hcall)
    · exact h.called f' before ((Function.update_of_ne hf ..).symm.trans hcall)
  case sent =>
    intro front f' back before hqueue hcall
    by_cases hf : f' = f
    · subst hf
      exact absurd ((Function.update_self ..).symm.trans hcall) (hsent before)
    · exact h.sent front f' back before hqueue ((Function.update_of_ne hf ..).symm.trans hcall)
  case carried =>
    intro f' before hcarried hcall
    by_cases hf : f' = f
    · subst hf
      exact absurd ((Function.update_self ..).symm.trans hcall) (hsent before)
    · exact h.carried f' before hcarried ((Function.update_of_ne hf ..).symm.trans hcall)
  case acked =>
    intro f' before hcall
    by_cases hf : f' = f
    · subst hf
      exact hacked before ((Function.update_self ..).symm.trans hcall)
    · exact h.acked f' before ((Function.update_of_ne hf ..).symm.trans hcall)
  case marked =>
    intro f' hmark
    by_cases hf : f' = f
    · subst hf
      exact (congrArg _ (Function.update_self ..)).trans (hmarked (h.marked f' hmark))
    · exact (congrArg _ (Function.update_of_ne hf ..)).trans (h.marked f' hmark)

theorem Delivered.ackFlush (h : Delivered s) (f : Nat)
    (hf : ∀ before, s.flushes f = .sent before → ∀ k ∈ before, k ∈ s.committed) : Delivered (s.ackFlush f) := by
  unfold State.ackFlush
  split
  next before hcall =>
    apply h.setFlush f
    case hsent => exact nofun
    case hmarked => exact fun _ => rfl
    case hcalled => exact nofun
    case hacked =>
      intro before' hsame
      cases hsame
      exact hf before hcall
  next => exact h

/-- The first message leaves the queue. -/
theorem Delivered.take (h : Delivered s) {m : CdrMsg} {rest : List CdrMsg} (hqueue : s.queue = m :: rest) (w : Writer)
    (hheld : s.committed ++ w.held = taken s ++ (recordOf m).toList)
    (hcarried : ∀ f ∈ w.carried, f ∈ s.writer.carried ∨ m = .flush f) :
    Delivered { s with queue := rest, writer := w } := by
  have hrecords (front : List CdrMsg) (k : Nat) :
      k ∈ s.committed ++ w.held ++ records front ↔ k ∈ taken s ++ records (m :: front) := by
    rw [hheld, List.append_assoc]
    cases m <;> rfl
  constructor
  case queued =>
    intro k hk
    exact (hrecords rest k).mpr (hqueue ▸ h.queued k hk)
  case called =>
    intro f before hcall k hk
    exact (hrecords rest k).mpr (hqueue ▸ h.called f before hcall k hk)
  case sent =>
    intro front f back before hsplit hcall k hk
    have hsplit : rest = front ++ .flush f :: back := hsplit
    exact (hrecords front k).mpr (h.sent (m :: front) f back before (by rw [hqueue, hsplit]; rfl) hcall k hk)
  case carried =>
    intro f before hf hcall k hk
    have htaken : taken { s with queue := rest, writer := w } = taken s ++ (recordOf m).toList := hheld
    rw [htaken]
    rcases hcarried f hf with hold | rfl
    · exact List.mem_append_left _ (h.carried f before hold hcall k hk)
    · exact h.sent [] f rest before hqueue hcall k hk
  case acked => exact h.acked
  case marked =>
    intro f hmark
    apply h.marked f
    rcases hmark with hrest | hf
    · exact .inl (hqueue ▸ List.mem_cons_of_mem m hrest)
    · rcases hcarried f hf with hold | rfl
      · exact .inr hold
      · exact .inl (hqueue ▸ List.mem_cons_self)

/-- The writer moves on with what it has. -/
theorem Delivered.turn (h : Delivered s) (w : Writer) (committed : List Nat) (hheld : committed ++ w.held = taken s)
    (hcarried : ∀ f ∈ w.carried, f ∈ s.writer.carried) (hgrows : ∀ k ∈ s.committed, k ∈ committed) :
    Delivered { s with writer := w, committed } := by
  have htaken : taken { s with writer := w, committed } = taken s := hheld
  constructor
  case queued =>
    rw [htaken]
    exact h.queued
  case called =>
    rw [htaken]
    exact h.called
  case sent =>
    rw [htaken]
    exact h.sent
  case carried =>
    rw [htaken]
    exact fun f before hf => h.carried f before (hcarried f hf)
  case acked => exact fun f before hcall k hk => hgrows k (h.acked f before hcall k hk)
  case marked => exact fun f hmark => h.marked f (hmark.imp_right (hcarried f))

/-- The last of a list is what was put there. -/
theorem split_concat {α : Type} {xs front back : List α} {m x : α} (h : xs ++ [m] = front ++ x :: back) :
    (front = xs ∧ x = m) ∨ ∃ more, xs = front ++ x :: more := by
  rcases List.eq_nil_or_concat back with rfl | ⟨more, last, rfl⟩
  · obtain ⟨hfront, hlast⟩ := List.append_inj' h rfl
    cases hlast
    exact .inl ⟨hfront.symm, rfl⟩
  · rw [List.concat_eq_append, ← List.cons_append, ← List.append_assoc] at h
    exact .inr ⟨more, (List.append_inj' h rfl).1⟩

theorem Delivered.trySend (h : Delivered s) : Delivered s.trySend := by
  unfold State.trySend
  split
  next =>
    have hmore : ∀ k, k ∈ taken s ++ records s.queue → k ∈ taken s ++ records (s.queue ++ [.record s.sent]) := by
      intro k hk
      rw [records_append, ← List.append_assoc]
      exact List.mem_append_left _ hk
    constructor
    case queued =>
      intro k hk
      rw [List.mem_append, List.mem_singleton, ← or_assoc] at hk
      rcases hk with hold | rfl
      · exact hmore k (h.queued k hold)
      · simp [records_append, recordOf]
    case called => exact fun f before hcall k hk => hmore k (h.called f before hcall k hk)
    case sent =>
      intro front f back before hqueue hcall k hk
      rcases split_concat hqueue with ⟨-, hm⟩ | ⟨more, hold⟩
      · cases hm
      · exact h.sent front f more before hold hcall k hk
    case carried => exact h.carried
    case acked => exact h.acked
    case marked =>
      intro f hmark
      apply h.marked f
      simpa using hmark
  next => exact h

theorem Delivered.fetchAdd (h : Delivered s) (k : Nat) : Delivered (s.fetchAdd k) := by
  unfold State.fetchAdd
  split
  next hk =>
    refine ⟨fun k' hk' => h.queued k' ?_, h.called, h.sent, h.carried, h.acked, h.marked⟩
    rcases hk' with hqueued | hadding
    · rcases List.mem_append.mp hqueued with hold | hnew
      · exact .inl hold
      · exact .inr (List.mem_singleton.mp hnew ▸ hk)
    · exact .inr (List.mem_of_mem_erase hadding)
  next => exact h

theorem Delivered.callFlush (h : Delivered s) (f : Nat) : Delivered (s.callFlush f) := by
  unfold State.callFlush
  split
  next hcall =>
    apply h.setFlush f
    case hsent => exact nofun
    case hmarked =>
      rw [hcall]
      exact nofun
    case hcalled =>
      intro before hsame k hk
      cases hsame
      exact h.queued k (.inl hk)
    case hacked => exact nofun
  next => exact h

theorem Delivered.returnFlush (h : Delivered s) (f : Nat) : Delivered (s.returnFlush f) := by
  unfold State.returnFlush
  split
  next =>
    apply h.setFlush f
    case hmarked => exact fun _ => rfl
    all_goals exact nofun
  next => exact h

/-- The marker goes behind all that it waits for. -/
theorem Delivered.sendFlush (h : Delivered s) (f : Nat) : Delivered (s.sendFlush f) := by
  unfold State.sendFlush
  split
  next before hcall =>
    split
    next =>
      have hunmarked : ¬ (.flush f ∈ s.queue ∨ f ∈ s.writer.carried) := by
        intro hmark
        have hsent := h.marked f hmark
        rw [hcall] at hsent
        cases hsent
      have hrecords : records (s.queue ++ [.flush f]) = records s.queue := by
        rw [records_append]
        exact List.append_nil _
      have hother {f' : Nat} (hf : f' ≠ f) : Function.update s.flushes f (.sent before) f' = s.flushes f' :=
        Function.update_of_ne hf ..
      have hown : Function.update s.flushes f (.sent before) f = .sent before := Function.update_self ..
      constructor
      case queued =>
        rw [hrecords]
        exact h.queued
      case called =>
        intro f' before' hcall' k hk
        rw [hrecords]
        by_cases hf : f' = f
        · subst hf
          cases hown.symm.trans hcall'
        · exact h.called f' before' ((hother hf).symm.trans hcall') k hk
      case sent =>
        intro front f' back before' hqueue hcall' k hk
        rcases split_concat hqueue with ⟨rfl, hm⟩ | ⟨more, hold⟩
        · cases hm
          cases hown.symm.trans hcall'
          exact h.called f before hcall k hk
        · have hf : f' ≠ f := by
            rintro rfl
            exact hunmarked (.inl (hold ▸ List.mem_append_right _ List.mem_cons_self))
          exact h.sent front f' more before' hold ((hother hf).symm.trans hcall') k hk
      case carried =>
        intro f' before' hcarried hcall' k hk
        have hf : f' ≠ f := fun hf => hunmarked (.inr (hf ▸ hcarried))
        exact h.carried f' before' hcarried ((hother hf).symm.trans hcall') k hk
      case acked =>
        intro f' before' hcall' k hk
        by_cases hf : f' = f
        · subst hf
          cases hown.symm.trans hcall'
        · exact h.acked f' before' ((hother hf).symm.trans hcall') k hk
      case marked =>
        intro f' hmark
        by_cases hf : f' = f
        · subst hf
          exact congrArg FlushCall.wasSent hown
        · refine (congrArg FlushCall.wasSent (hother hf)).trans (h.marked f' (hmark.imp_left fun hqueue => ?_))
          simpa [hf] using hqueue
    next => exact h
  next => exact h

theorem Delivered.receive (h : Delivered s) : Delivered s.receive := by
  unfold State.receive
  split
  next hwriter =>
    have htaken : taken s = s.committed := by rw [taken, hwriter]; exact List.append_nil _
    split
    next k rest hqueue => exact h.take hqueue _ (by rw [htaken]; rfl) nofun
    next f rest hqueue =>
      have hnext : Delivered { s with queue := rest } := by
        have htake := h.take hqueue s.writer (List.append_nil _).symm fun f hf => .inl hf
        exact htake
      refine hnext.ackFlush f fun before hcall k hk => ?_
      have hsent := h.sent [] f rest before hqueue hcall k hk
      rw [htaken] at hsent
      exact (List.append_nil s.committed) ▸ hsent
    next => exact h
  next batch flushes hwriter =>
    have htaken : taken s = s.committed ++ batch := by rw [taken, hwriter]; rfl
    have hturn : Delivered { s with writer := .storing batch flushes } := by
      refine h.turn _ s.committed htaken.symm (fun f hf => ?_) fun k hk => hk
      rw [hwriter]
      exact hf
    split
    next =>
      split
      next k rest hqueue =>
        refine h.take hqueue _ ?_ fun f hf => .inl ?_
        · rw [htaken, List.append_assoc]
          rfl
        · rw [hwriter]
          exact hf
      next f rest hqueue =>
        refine h.take hqueue _ ?_ fun f' hf => ?_
        · rw [htaken]
          exact (List.append_nil _).symm
        · rcases List.mem_append.mp hf with hold | hnew
          · exact .inl (hwriter ▸ hold)
          · exact .inr (congrArg CdrMsg.flush (List.mem_singleton.mp hnew).symm)
      next => exact hturn
    next => exact hturn
  next => exact h

/-- While the store is asked again, nothing is lost. -/
theorem Delivered.store (h : Delivered s) (accepted : Bool) (hstop : s.stopping = false) :
    Delivered (s.store accepted) := by
  unfold State.store
  split
  next batch flushes hwriter =>
    have htaken : taken s = s.committed ++ batch := by rw [taken, hwriter]; rfl
    split
    next =>
      refine h.turn _ (s.committed ++ batch) ?_ (fun f hf => ?_) fun k hk => List.mem_append_left _ hk
      · rw [htaken]
        exact List.append_nil _
      · rw [hwriter]
        exact hf
    next =>
      split
      next hgiven => exact absurd (hstop.symm.trans hgiven) Bool.false_ne_true
      next => exact h
  next => exact h

theorem Delivered.fetchSub (h : Delivered s) : Delivered s.fetchSub := by
  unfold State.fetchSub
  split
  next batch flushes hwriter =>
    have hturn : Delivered { s with writer := .acking flushes } := by
      refine h.turn _ s.committed ?_ (fun f hf => ?_) fun k hk => hk
      · rw [taken, hwriter]
        rfl
      · rw [hwriter]
        exact hf
    exact ⟨hturn.queued, hturn.called, hturn.sent, hturn.carried, hturn.acked, hturn.marked⟩
  next => exact h

theorem Delivered.ack (h : Delivered s) : Delivered s.ack := by
  unfold State.ack
  split
  next f flushes hwriter =>
    have htaken : taken s = s.committed := by rw [taken, hwriter]; exact List.append_nil _
    have hturn : Delivered { s with writer := .acking flushes } := by
      refine h.turn _ s.committed (by rw [htaken]; exact List.append_nil _) (fun f' hf => ?_) fun k hk => hk
      rw [hwriter]
      exact List.mem_cons_of_mem f hf
    refine hturn.ackFlush f fun before hcall k hk => ?_
    have hcarried : f ∈ s.writer.carried := by rw [hwriter]; exact List.mem_cons_self
    exact htaken ▸ h.carried f before hcarried hcall k hk
  next hwriter =>
    refine h.turn _ s.committed ?_ nofun fun k hk => hk
    rw [taken, hwriter]
    rfl
  next => exact h

theorem Delivered.step (h : Delivered s) (hstop : s.stopping = false) (a : Action) :
    Delivered (CdrQueue.step s a) := by
  cases a with
  | trySend => exact h.trySend
  | fetchAdd k => exact h.fetchAdd k
  | callFlush f => exact h.callFlush f
  | sendFlush f => exact h.sendFlush f
  | returnFlush f => exact h.returnFlush f
  | receive => exact h.receive
  | store accepted => exact h.store accepted hstop
  | fetchSub => exact h.fetchSub
  | ack => exact h.ack
  | stop => exact ⟨h.queued, h.called, h.sent, h.carried, h.acked, h.marked⟩

end Flushes

section Runs

/-- The counter is right, and while the manager runs every flush knows where its records are. -/
structure Inv (s : State) : Prop where
  counted : Counted s
  delivered : s.stopping = false → Delivered s

theorem inv_init : Inv init := ⟨counted_init, fun _ => delivered_init⟩

theorem stopping_ackFlush (s : State) (f : Nat) : (s.ackFlush f).stopping = s.stopping := by
  obtain ⟨flushes, hsame⟩ := ackFlush_same s f
  rw [hsame]

theorem stopping_calls (s : State) (f : Nat) : (s.callFlush f).stopping = s.stopping ∧
    (s.sendFlush f).stopping = s.stopping ∧ (s.returnFlush f).stopping = s.stopping := by
  unfold State.callFlush State.sendFlush State.returnFlush
  refine ⟨?_, ?_, ?_⟩
  · split <;> rfl
  · split
    next => split <;> rfl
    next => rfl
  · split <;> rfl

theorem stopping_receive (s : State) : s.receive.stopping = s.stopping := by
  unfold State.receive
  split
  next =>
    split
    next => rfl
    next => exact stopping_ackFlush _ _
    next => rfl
  next =>
    split
    next => split <;> rfl
    next => rfl
  next => rfl

/-- A manager that has stopped does not start again. -/
theorem stopping_step {s : State} {a : Action} (h : (step s a).stopping = false) : s.stopping = false := by
  cases a with
  | trySend =>
      have hsame : s.trySend.stopping = s.stopping := by unfold State.trySend; split <;> rfl
      exact hsame.symm.trans h
  | fetchAdd k =>
      have hsame : (s.fetchAdd k).stopping = s.stopping := by unfold State.fetchAdd; split <;> rfl
      exact hsame.symm.trans h
  | callFlush f => exact (stopping_calls s f).1.symm.trans h
  | sendFlush f => exact (stopping_calls s f).2.1.symm.trans h
  | returnFlush f => exact (stopping_calls s f).2.2.symm.trans h
  | receive => exact (stopping_receive s).symm.trans h
  | store accepted =>
      have hsame : (s.store accepted).stopping = s.stopping := by
        unfold State.store
        split
        next => split_ifs <;> rfl
        next => rfl
      exact hsame.symm.trans h
  | fetchSub =>
      have hsame : s.fetchSub.stopping = s.stopping := by unfold State.fetchSub; split <;> rfl
      exact hsame.symm.trans h
  | ack =>
      have hsame : s.ack.stopping = s.stopping := by
        unfold State.ack
        split
        next => exact stopping_ackFlush _ _
        next => rfl
        next => rfl
      exact hsame.symm.trans h
  | stop => cases h

theorem Inv.step {s : State} {a : Action} (h : Inv s) (hsound : Sound s a) : Inv (CdrQueue.step s a) :=
  ⟨h.counted.step a hsound.kept, fun hstop => (h.delivered (stopping_step hstop)).step (stopping_step hstop) a⟩

/-- A batch can be counted off exactly when the inserts that are not counted stand behind it. -/
theorem sound_iff_settled (s : State) (a : Action) (h : Inv s) : Sound s a ↔ Settled s a := by
  have hlag := h.counted.lag
  rw [unprocessed] at hlag
  constructor
  · intro hsound batch flushes ha hwriter
    have hkept := hsound.kept batch flushes ha hwriter
    rw [hwriter, Writer.batch] at hlag
    omega
  · intro hsettled
    have hkept : ∀ batch flushes, a = .fetchSub → s.writer = .settling batch flushes →
        batch.length ≤ s.queueLen.toNat := by
      intro batch flushes ha hwriter
      have hbehind := hsettled batch flushes ha hwriter
      rw [hwriter, Writer.batch] at hlag
      omega
    have hnext := h.counted.step a hkept
    constructor
    case kept => exact hkept
    case room =>
      intro k _ _
      have hbound := h.counted.bounded
      simp only [cdrQueueCapacity, batchMax] at hbound
      omega
    case counted =>
      intro hadding
      have hexact := hnext.lag
      rwa [hadding] at hexact
    case flushed => exact fun f before _ hcall hstop => (h.delivered hstop).acked f before hcall

/-- In a run from the empty queue the counter and the flushes are sound at every step when no batch is
counted off before the inserts behind it are counted, and only then. -/
theorem queue_sound_iff (actions : List Action) : Throughout step Sound init actions ↔ Throughout step Settled init actions :=
  throughout_iff sound_iff_settled (fun _ _ => Inv.step) inv_init

/-- The writer commits a record before the insert has counted it: the counter falls below zero, and the sum in
the insert overflows. -/
theorem queue_unsound :
    let actions : List Action := [.trySend, .receive, .receive, .store true, .fetchSub, .fetchAdd 0]
    ¬ Throughout step Sound init actions ∧ ((actions.take 5).foldl step init).queueLen.toNat = 2 ^ 64 - 1 := by
  intro actions
  refine ⟨fun h => ?_, by decide +kernel⟩
  have hkept := h.2.2.2.2.1.kept [0] [] rfl rfl
  exact absurd hkept (by decide)

end Runs

end NixiSbc.CdrQueue
