import NixiSbc.Eviction
import NixiSbc.NetAddr

namespace NixiSbc.RateLimit

open ByteWords KeyedTable Eviction NetAddr

/-- The most addresses that are tracked at once. -/
def maxTrackedClients : Nat := 4096

/-- The times of the accepted requests of every address, oldest first. -/
abbrev Clients := Table IpAddr (List Nat)

section Check

variable (I : Iteration IpAddr (List Nat)) (limit window : Nat)

def active (now : Nat) (hits : List Nat) : Bool := hits.getLast?.any fun last => now - last < window

/-- Where no entry is idle, the one that was accepted the longest ago goes. -/
def makeRoom (now : Nat) (inner : Clients) : Clients :=
  let inner := retain (active window now) inner
  if size inner < maxTrackedClients then inner
  else
    match oldest I (fun hits => hits.getLast?.getD now) inner with
    | some ip => inner.erase ip
    | none => inner

def popFront (now : Nat) (hits : List Nat) : List Nat := hits.dropWhile fun front => window ≤ now - front

def room (ip : IpAddr) (now : Nat) (inner : Clients) : Clients :=
  if (inner.lookup ip).isNone && decide (maxTrackedClients ≤ size inner) then makeRoom I window now inner
  else inner

def check (ip : IpAddr) (now : Nat) (inner : Clients) : Bool × Clients :=
  if limit = 0 then (true, inner)
  else
    let inner := room I window ip now inner
    let entry := popFront window now ((inner.lookup ip).getD [])
    if limit ≤ entry.length then (false, inner.insert ip entry)
    else (true, inner.insert ip (entry ++ [now]))

/-- A request, how it was decided, and the table around it. -/
structure Event where
  ip : IpAddr
  now : Nat
  accepted : Bool
  before : Clients
  after : Clients

/-- The requests so far, the newest first, the table and the time. -/
inductive Run : List Event → Clients → Nat → Prop
  | start : Run [] ∅ 0
  | next {past inner clock now} (h : Run past inner clock) (ip : IpAddr) (hnow : clock ≤ now) :
      Run (⟨ip, now, (check I limit window ip now inner).1, inner, (check I limit window ip now inner).2⟩ :: past)
        (check I limit window ip now inner).2 now

end Check

variable (window : Nat)

/-- An address that was active is not tracked any more. -/
def Event.evicts (e : Event) (ip : IpAddr) : Bool :=
  (e.after.lookup ip).isNone && (e.before.lookup ip).any (active window e.now)

def Event.hit (e : Event) (ip : IpAddr) : Bool := e.accepted && decide (e.ip = ip)

section Room

variable {I : Iteration IpAddr (List Nat)} {window : Nat} {ip a : IpAddr} {now : Nat} {inner : Clients}

theorem lookup_makeRoom_of_some {hits : List Nat} (h : (makeRoom I window now inner).lookup a = some hits) :
    inner.lookup a = some hits := by
  rw [makeRoom] at h
  split at h
  next => exact lookup_of_lookup_retain h
  next =>
    split at h
    next => exact lookup_of_lookup_retain (lookup_of_lookup_erase h)
    next => exact lookup_of_lookup_retain h

/-- Who was active and is gone was accepted the longest ago, in a full table of active addresses. -/
theorem makeRoom_evicts {hits : List Nat} (hsize : size inner ≤ maxTrackedClients)
    (ha : inner.lookup a = some hits) (hactive : active window now hits = true)
    (hgone : (makeRoom I window now inner).lookup a = none) :
    size inner = maxTrackedClients ∧ (∀ b hits, inner.lookup b = some hits → active window now hits = true) ∧
      ∀ b hits', inner.lookup b = some hits' → hits.getLast?.getD now ≤ hits'.getLast?.getD now := by
  have hkept : (retain (active window now) inner).lookup a = some hits := by
    rw [lookup_retain, ha, Option.filter_some, if_pos hactive]
  rw [makeRoom] at hgone
  split at hgone
  next =>
    rw [hkept] at hgone
    cases hgone
  next hfull =>
    have hcount := count_le_size (active window now) inner
    rw [size_retain] at hfull
    have hall := (count_eq_size_iff (active window now) inner).mp (by omega)
    refine ⟨by omega, hall, fun b hits' hb => ?_⟩
    split at hgone
    next k hk =>
      obtain ⟨v, hv, hmin⟩ := oldest_spec hk
      rw [lookup_erase_eq] at hgone
      split at hgone
      next hak =>
        rw [← hak, hkept] at hv
        cases hv
        apply hmin b hits'
        rw [lookup_retain, hb, Option.filter_some, if_pos (hall b hits' hb)]
      next =>
        rw [hkept] at hgone
        cases hgone
    next =>
      rw [hkept] at hgone
      cases hgone

theorem size_makeRoom_lt (hsize : size inner ≤ maxTrackedClients) :
    size (makeRoom I window now inner) < maxTrackedClients := by
  rw [makeRoom]
  split
  next h => exact h
  next hfull =>
    have hle := size_sweep_le (fun _ v => if active window now v then some v else none) inner
    split
    next k hk =>
      obtain ⟨v, hv, -⟩ := oldest_spec hk
      have herase := size_erase (t := retain (active window now) inner) (k := k) (by rw [hv]; rfl)
      rw [← retain] at hle
      omega
    next hnone =>
      have hempty := oldest_eq_none hnone
      rw [hempty] at hfull
      exact absurd (by decide) hfull

theorem lookup_room_of_some {hits : List Nat} (h : (room I window ip now inner).lookup a = some hits) :
    inner.lookup a = some hits := by
  rw [room] at h
  split at h
  next => exact lookup_makeRoom_of_some h
  next => exact h

theorem room_eq_of_tracked (h : (inner.lookup ip).isSome = true) : room I window ip now inner = inner := by
  rw [room, Option.isNone_eq_false_iff.mpr h]
  rfl

theorem lookup_room_self : (room I window ip now inner).lookup ip = inner.lookup ip := by
  cases h : inner.lookup ip with
  | some hits => rw [room_eq_of_tracked (by rw [h]; rfl), h]
  | none =>
      cases hroom : (room I window ip now inner).lookup ip with
      | none => rfl
      | some hits =>
          rw [lookup_room_of_some hroom] at h
          cases h

theorem size_room_lt (hsize : size inner ≤ maxTrackedClients) (h : inner.lookup ip = none) :
    size (room I window ip now inner) < maxTrackedClients := by
  rw [room]
  split
  next => exact size_makeRoom_lt hsize
  next hno =>
    simp only [h, Option.isNone_none, Bool.true_and, decide_eq_true_eq] at hno
    omega

theorem size_insert_room_le (hsize : size inner ≤ maxTrackedClients) (hits : List Nat) :
    size ((room I window ip now inner).insert ip hits) ≤ maxTrackedClients := by
  cases h : inner.lookup ip with
  | some old =>
      rw [room_eq_of_tracked (by rw [h]; rfl), size_insert_present hits (by rw [h]; rfl)]
      exact hsize
  | none => exact (size_insert_le _ _ _).trans (size_room_lt hsize h)

end Room

section Hits

variable {window now : Nat} {hits : List Nat}

theorem popFront_append (window now : Nat) (hits : List Nat) :
    ∃ popped, hits = popped ++ popFront window now hits ∧ ∀ x ∈ popped, window ≤ now - x := by
  refine ⟨hits.takeWhile fun front => window ≤ now - front, List.takeWhile_append_dropWhile.symm, fun x hx => ?_⟩
  have hold := List.mem_takeWhile_imp hx
  exact of_decide_eq_true hold

/-- In the order of time, what stays is within the window. -/
theorem popFront_recent (hsorted : hits.Pairwise (· ≤ ·)) : ∀ x ∈ popFront window now hits, now - x < window := by
  induction hits with
  | nil => intro x hx; cases hx
  | cons front hits ih =>
      rw [List.pairwise_cons] at hsorted
      rw [popFront, List.dropWhile_cons]
      split
      next => exact ih hsorted.2
      next hfront =>
        simp only [decide_eq_true_eq, not_le] at hfront
        intro x hx
        rcases List.mem_cons.mp hx with rfl | hx
        · exact hfront
        · have hle := hsorted.1 x hx
          omega

theorem getLast?_popFront (h : popFront window now hits ≠ []) : (popFront window now hits).getLast? = hits.getLast? := by
  obtain ⟨popped, heq, -⟩ := popFront_append window now hits
  conv_rhs => rw [heq]
  rw [List.getLast?_append_of_ne_nil _ h]

end Hits

section Steps

variable {I : Iteration IpAddr (List Nat)} {limit window : Nat} {past : List Event} {inner : Clients} {clock now : Nat}
  {ip a : IpAddr}

/-- The accepted requests since the last eviction, oldest first. -/
def since (window : Nat) (ip : IpAddr) : List Event → List Nat
  | [] => []
  | e :: past => (if e.evicts window ip then [] else since window ip past) ++ if e.hit ip then [e.now] else []

theorem check_cases (I : Iteration IpAddr (List Nat)) (window : Nat) (hlimit : 0 < limit) (ip : IpAddr) (now : Nat) (inner : Clients) :
    let entry := popFront window now ((inner.lookup ip).getD [])
    (limit ≤ entry.length ∧ check I limit window ip now inner = (false, (room I window ip now inner).insert ip entry)) ∨
      (entry.length < limit ∧
        check I limit window ip now inner = (true, (room I window ip now inner).insert ip (entry ++ [now]))) := by
  intro entry
  rw [check, if_neg (by omega)]
  dsimp only
  rw [lookup_room_self]
  split
  next h => exact .inl ⟨h, rfl⟩
  next h => exact .inr ⟨not_le.mp h, rfl⟩

/-- The other entries are as `room` leaves them. -/
theorem lookup_check_ne (hlimit : 0 < limit) (hne : a ≠ ip) :
    (check I limit window ip now inner).2.lookup a = (room I window ip now inner).lookup a := by
  rcases check_cases I window hlimit ip now inner with ⟨-, h⟩ | ⟨-, h⟩
  · rw [h, AList.lookup_insert_ne hne]
  · rw [h, AList.lookup_insert_ne hne]

theorem lookup_check_self (I : Iteration IpAddr (List Nat)) (window : Nat) (hlimit : 0 < limit) (ip : IpAddr) (now : Nat)
    (inner : Clients) : ((check I limit window ip now inner).2.lookup ip).isSome = true := by
  rcases check_cases I window hlimit ip now inner with ⟨-, h⟩ | ⟨-, h⟩
  · rw [h, AList.lookup_insert]; rfl
  · rw [h, AList.lookup_insert]; rfl

theorem since_sublist (window : Nat) (ip : IpAddr) (past : List Event) :
    (since window ip past).Sublist ((past.filter (·.hit ip)).map (·.now)).reverse := by
  induction past with
  | nil => exact .slnil
  | cons e past ih =>
      have hrest : (if e.evicts window ip then [] else since window ip past).Sublist
          ((past.filter (·.hit ip)).map (·.now)).reverse := by
        split
        next => exact List.nil_sublist _
        next => exact ih
      rw [since]
      cases hhit : e.hit ip with
      | true =>
          simp only [List.filter_cons, hhit, if_true, List.map_cons, List.reverse_cons]
          exact hrest.append (.refl _)
      | false => simpa only [List.filter_cons, hhit, Bool.false_eq_true, if_false, List.append_nil] using hrest

structure Inv (limit window : Nat) (past : List Event) (inner : Clients) (clock : Nat) : Prop where
  size_le : size inner ≤ maxTrackedClients
  ordered : (past.map (·.now)).Pairwise (· ≥ ·)
  le_clock : ∀ e ∈ past, e.now ≤ clock
  length_le : ∀ {a hits}, inner.lookup a = some hits → hits.length ≤ limit
  latest : ∀ {a hits}, inner.lookup a = some hits → ∃ last, hits.getLast? = some last ∧
    (∃ e ∈ past, e.hit a = true ∧ e.now = last) ∧ ∀ e ∈ past, e.hit a = true → e.now ≤ last
  kept : ∀ a, ∃ dropped, since window a past = dropped ++ (inner.lookup a).getD [] ∧ ∀ x ∈ dropped, window ≤ clock - x

theorem Inv.sorted_since (h : Inv limit window past inner clock) (a : IpAddr) :
    (since window a past).Pairwise (· ≤ ·) := by
  apply List.Pairwise.sublist (since_sublist window a past)
  rw [List.pairwise_reverse]
  exact h.ordered.sublist (List.filter_sublist.map _)

theorem Inv.sorted (h : Inv limit window past inner clock) (a : IpAddr) :
    ((inner.lookup a).getD []).Pairwise (· ≤ ·) := by
  obtain ⟨dropped, heq, -⟩ := h.kept a
  have hsorted := h.sorted_since a
  rw [heq] at hsorted
  exact (List.pairwise_append.mp hsorted).2.1

/-- Every entry is sorted, so an idle one has nothing in the window. -/
theorem Inv.idle (h : Inv limit window past inner clock) {hits : List Nat} (ha : inner.lookup a = some hits)
    (hidle : active window now hits = false) : ∀ x ∈ hits, window ≤ now - x := by
  obtain ⟨last, hlast, -, -⟩ := h.latest ha
  have hsorted := h.sorted a
  rw [ha, Option.getD_some] at hsorted
  obtain ⟨front, rfl⟩ := List.getLast?_eq_some_iff.mp hlast
  rw [active, hlast, Option.any_some, decide_eq_false_iff_not] at hidle
  intro x hx
  rcases List.mem_append.mp hx with hx | hx
  · have hle := (List.pairwise_append.mp hsorted).2.2 x hx last (List.mem_singleton_self last)
    omega
  · rw [List.mem_singleton.mp hx]
    omega

theorem inv_start (limit window : Nat) : Inv limit window [] ∅ 0 where
  size_le := Nat.zero_le _
  ordered := .nil
  le_clock _ he := by cases he
  length_le h := by cases h
  latest h := by cases h
  kept _ := ⟨[], rfl, fun _ hx => by cases hx⟩

/-- The entry of the address itself, before and after. -/
theorem Inv.check_self (h : Inv limit window past inner clock) (hlimit : 0 < limit) (ip : IpAddr) (now : Nat) :
    ∃ popped entry, (inner.lookup ip).getD [] = popped ++ entry ∧ (∀ x ∈ popped, window ≤ now - x) ∧
      (∀ x ∈ entry, now - x < window) ∧
      ((limit ≤ entry.length ∧ (check I limit window ip now inner).1 = false ∧
          (check I limit window ip now inner).2.lookup ip = some entry) ∨
        (entry.length < limit ∧ (check I limit window ip now inner).1 = true ∧
          (check I limit window ip now inner).2.lookup ip = some (entry ++ [now]))) := by
  obtain ⟨popped, heq, hpopped⟩ := popFront_append window now ((inner.lookup ip).getD [])
  refine ⟨popped, _, heq, hpopped, popFront_recent (h.sorted ip), ?_⟩
  rcases check_cases I window hlimit ip now inner with ⟨hlen, hout⟩ | ⟨hlen, hout⟩
  · rw [hout]
    exact .inl ⟨hlen, rfl, AList.lookup_insert _⟩
  · rw [hout]
    exact .inr ⟨hlen, rfl, AList.lookup_insert _⟩

/-- An entry is gone because it was idle, or it was evicted. -/
theorem Inv.kept_other (h : Inv limit window past inner clock) (hlimit : 0 < limit) (hnow : clock ≤ now)
    (hne : a ≠ ip) {accepted : Bool} :
    ∃ dropped, since window a
        (⟨ip, now, accepted, inner, (check I limit window ip now inner).2⟩ :: past) =
          dropped ++ ((check I limit window ip now inner).2.lookup a).getD [] ∧ ∀ x ∈ dropped, window ≤ now - x := by
  obtain ⟨dropped, hsince, hdropped⟩ := h.kept a
  have hdropped' : ∀ x ∈ dropped, window ≤ now - x := fun x hx => (hdropped x hx).trans (Nat.sub_le_sub_right hnow x)
  have hhit : (decide (ip = a)) = false := decide_eq_false (Ne.symm hne)
  rw [since, Event.evicts, Event.hit, lookup_check_ne hlimit hne]
  simp only [hhit, Bool.and_false, Bool.false_eq_true, if_false, List.append_nil]
  cases hroom : (room I window ip now inner).lookup a with
  | some hits =>
      rw [lookup_room_of_some hroom] at hsince
      exact ⟨dropped, hsince, hdropped'⟩
  | none =>
      cases hinner : inner.lookup a with
      | none =>
          rw [hinner] at hsince
          exact ⟨dropped, hsince, hdropped'⟩
      | some hits =>
          cases hactive : active window now hits with
          | true => exact ⟨[], by simp [hactive], fun x hx => by cases hx⟩
          | false =>
              rw [hinner, Option.getD_some] at hsince
              refine ⟨dropped ++ hits, by simp [hactive, hsince], fun x hx => ?_⟩
              rcases List.mem_append.mp hx with hx | hx
              · exact hdropped' x hx
              · exact h.idle hinner hactive x hx

theorem Inv.step (h : Inv limit window past inner clock) (hlimit : 0 < limit) (ip : IpAddr) (hnow : clock ≤ now) :
    Inv limit window
      (⟨ip, now, (check I limit window ip now inner).1, inner, (check I limit window ip now inner).2⟩ :: past)
      (check I limit window ip now inner).2 now := by
  obtain ⟨popped, entry, heq, hpopped, hentry, hout⟩ := h.check_self (I := I) hlimit ip now
  constructor
  case size_le =>
    rcases check_cases I window hlimit ip now inner with ⟨-, hout⟩ | ⟨-, hout⟩
    · rw [hout]
      exact size_insert_room_le h.size_le _
    · rw [hout]
      exact size_insert_room_le h.size_le _
  case ordered =>
    rw [List.map_cons, List.pairwise_cons]
    refine ⟨fun t ht => ?_, h.ordered⟩
    obtain ⟨e, he, rfl⟩ := List.mem_map.mp ht
    exact (h.le_clock e he).trans hnow
  case le_clock =>
    intro e he
    rcases List.mem_cons.mp he with rfl | he
    · exact le_rfl
    · exact (h.le_clock e he).trans hnow
  case length_le =>
    intro a hits ha
    by_cases hne : a = ip
    · subst hne
      have hlen : (popped ++ entry).length ≤ max limit 0 := by
        rw [← heq]
        cases hlookup : inner.lookup a with
        | none => exact Nat.zero_le _
        | some old => exact (h.length_le hlookup).trans (Nat.le_max_left _ _)
      rw [List.length_append] at hlen
      rcases hout with ⟨-, -, hafter⟩ | ⟨hlt, -, hafter⟩
      · cases hafter.symm.trans ha
        omega
      · cases hafter.symm.trans ha
        rw [List.length_append, List.length_singleton]
        omega
    · rw [lookup_check_ne hlimit hne] at ha
      exact h.length_le (lookup_room_of_some ha)
  case latest =>
    intro a hits ha
    by_cases hne : a = ip
    · subst hne
      rcases hout with ⟨hlen, hrefused, hafter⟩ | ⟨-, haccepted, hafter⟩
      · cases hafter.symm.trans ha
        have hnonempty : entry ≠ [] := List.ne_nil_of_length_pos (by omega)
        cases hlookup : inner.lookup a with
        | none =>
            rw [hlookup, Option.getD_none] at heq
            exact absurd (List.append_eq_nil_iff.mp heq.symm).2 hnonempty
        | some old =>
            obtain ⟨last, hlast, ⟨e, he, hit⟩, hmax⟩ := h.latest hlookup
            rw [hlookup, Option.getD_some] at heq
            rw [heq, List.getLast?_append_of_ne_nil _ hnonempty] at hlast
            refine ⟨last, hlast, ⟨e, List.mem_cons_of_mem _ he, hit⟩, fun e' he' hit' => ?_⟩
            rcases List.mem_cons.mp he' with rfl | he'
            · rw [Event.hit, hrefused] at hit'
              cases hit'
            · exact hmax e' he' hit'
      · cases hafter.symm.trans ha
        refine ⟨now, List.getLast?_concat, ⟨_, List.mem_cons_self, ?_, rfl⟩, fun e he _ => ?_⟩
        · rw [Event.hit, haccepted]
          exact decide_eq_true rfl
        · rcases List.mem_cons.mp he with rfl | he
          · exact le_rfl
          · exact (h.le_clock e he).trans hnow
    · rw [lookup_check_ne hlimit hne] at ha
      obtain ⟨last, hlast, ⟨e, he, hit⟩, hmax⟩ := h.latest (lookup_room_of_some ha)
      refine ⟨last, hlast, ⟨e, List.mem_cons_of_mem _ he, hit⟩, fun e' he' hit' => ?_⟩
      rcases List.mem_cons.mp he' with rfl | he'
      · simp [Event.hit, Ne.symm hne] at hit'
      · exact hmax e' he' hit'
  case kept =>
    intro a
    by_cases hne : a = ip
    · subst hne
      obtain ⟨dropped, hsince, hdropped⟩ := h.kept a
      refine ⟨dropped ++ popped, ?_, fun x hx => ?_⟩
      · have hstays : ((check I limit window a now inner).2.lookup a).isNone = false := by
          rw [Option.isNone_eq_false_iff]
          exact lookup_check_self I window hlimit a now inner
        rw [since, Event.evicts, hstays, Bool.false_and, if_neg Bool.false_ne_true, hsince, heq, Event.hit]
        rcases hout with ⟨-, hrefused, hafter⟩ | ⟨-, haccepted, hafter⟩
        · simp [hrefused, hafter]
        · simp [haccepted, hafter]
      · rcases List.mem_append.mp hx with hx | hx
        · exact (hdropped x hx).trans (Nat.sub_le_sub_right hnow x)
        · exact hpopped x hx
    · exact h.kept_other hlimit hnow hne

/-- What was accepted in a stretch of time is at most what is remembered of it,
when nothing was evicted since it began. -/
theorem count_le_since (ip : IpAddr) {start : Nat} (hordered : (past.map (·.now)).Pairwise (· ≥ ·))
    (h : ∀ e ∈ past, start ≤ e.now → e.evicts window ip = false) :
    past.countP (fun e => e.hit ip && decide (start ≤ e.now)) = (since window ip past).countP (start ≤ ·) := by
  induction past with
  | nil => rfl
  | cons e past ih =>
      rw [List.map_cons, List.pairwise_cons] at hordered
      have hrest := ih hordered.2 fun e' he' => h e' (List.mem_cons_of_mem e he')
      have hkept : past.countP (fun e => e.hit ip && decide (start ≤ e.now)) =
          (if e.evicts window ip then [] else since window ip past).countP (start ≤ ·) := by
        cases hevicts : e.evicts window ip with
        | false => exact hrest
        | true =>
            rw [if_pos rfl, List.countP_nil, List.countP_eq_zero]
            intro e' he' hin
            have hold : ¬start ≤ e.now := fun hle => by
              rw [h e List.mem_cons_self hle] at hevicts
              cases hevicts
            have hle : e'.now ≤ e.now := hordered.1 e'.now (List.mem_map_of_mem he')
            simp only [Bool.and_eq_true, decide_eq_true_eq] at hin
            omega
      rw [List.countP_cons, hkept, since, List.countP_append]
      congr 1
      cases e.hit ip with
      | false => rfl
      | true => simp

theorem Inv.count_le_limit (h : Inv limit window past inner clock) {start : Nat} (hstart : start ≤ clock)
    (hclock : clock < start + window)
    (hkeeps : ∀ e ∈ past, start ≤ e.now → e.now < start + window → e.evicts window ip = false) :
    past.countP (fun e => e.hit ip && decide (start ≤ e.now ∧ e.now < start + window)) ≤ limit := by
  have hopen : past.countP (fun e => e.hit ip && decide (start ≤ e.now ∧ e.now < start + window)) =
      past.countP fun e => e.hit ip && decide (start ≤ e.now) := by
    apply List.countP_congr
    intro e he
    have hlt := (h.le_clock e he).trans_lt hclock
    simp only [hlt, and_true]
  obtain ⟨dropped, hsince, hdropped⟩ := h.kept ip
  have hnone : dropped.countP (start ≤ ·) = 0 := by
    rw [List.countP_eq_zero]
    intro x hx
    have hold := hdropped x hx
    simp only [decide_eq_true_eq, not_le]
    omega
  rw [hopen, count_le_since ip h.ordered fun e he hle => hkeeps e he hle ((h.le_clock e he).trans_lt hclock), hsince,
    List.countP_append, hnone, Nat.zero_add]
  refine List.countP_le_length.trans ?_
  cases hlookup : inner.lookup ip with
  | none => exact Nat.zero_le limit
  | some hits => exact h.length_le hlookup

theorem Run.inv (hlimit : 0 < limit) (h : Run I limit window past inner clock) : Inv limit window past inner clock := by
  induction h with
  | start => exact inv_start limit window
  | next h ip hnow ih => exact ih.step hlimit ip hnow

theorem Run.suffix (h : Run I limit window past inner clock) {e : Event} {earlier : List Event}
    (hsuffix : e :: earlier <:+ past) :
    ∃ clock', Run I limit window earlier e.before clock' ∧ clock' ≤ e.now ∧
      check I limit window e.ip e.now e.before = (e.accepted, e.after) := by
  induction h with
  | start => cases List.suffix_nil.mp hsuffix
  | next h ip hnow ih =>
      rcases List.suffix_cons_iff.mp hsuffix with heq | hsuffix
      · cases heq
        exact ⟨_, h, hnow, rfl⟩
      · exact ih hsuffix

/-- Between two evictions no window holds more accepted requests than the limit. -/
theorem Run.accepted_le (hlimit : 0 < limit) (h : Run I limit window past inner clock) (ip : IpAddr) (start : Nat)
    (hkeeps : ∀ e ∈ past, start ≤ e.now → e.now < start + window → e.evicts window ip = false) :
    past.countP (fun e => e.hit ip && decide (start ≤ e.now ∧ e.now < start + window)) ≤ limit := by
  induction h with
  | start => exact Nat.zero_le _
  | @next past inner clock now h ip' hnow ih =>
      have hprior := ih fun e he => hkeeps e (List.mem_cons_of_mem _ he)
      have hafter := (h.inv hlimit).step (I := I) hlimit ip' hnow
      by_cases hin : start ≤ now ∧ now < start + window
      · exact hafter.count_le_limit hin.1 hin.2 hkeeps
      · rw [List.countP_cons_of_neg]
        · exact hprior
        · rw [Bool.and_eq_true, decide_eq_true_eq]
          exact fun h => hin h.2

/-- Only an address that has used up its window is refused. -/
theorem Inv.refused (h : Inv limit window past inner clock) (hlimit : 0 < limit)
    (hrefused : (check I limit window ip now inner).1 = false) :
    limit ≤ past.countP fun x => x.hit ip && decide (now < x.now + window) := by
  obtain ⟨popped, entry, heq, -, hrecent, hout⟩ := h.check_self (I := I) hlimit ip now
  rcases hout with ⟨hlen, -, -⟩ | ⟨-, haccepted, -⟩
  · obtain ⟨dropped, hsince, -⟩ := h.kept ip
    have hsub : entry.Sublist (since window ip past) := by
      rw [hsince, heq, ← List.append_assoc]
      exact List.sublist_append_right _ _
    have hall : entry.countP (fun t => decide (now < t + window)) = entry.length := by
      rw [List.countP_eq_length]
      intro t ht
      have hlt := hrecent t ht
      exact decide_eq_true (by omega)
    calc limit ≤ entry.countP fun t => decide (now < t + window) := hlen.trans hall.ge
      _ ≤ ((past.filter (·.hit ip)).map (·.now)).reverse.countP fun t => decide (now < t + window) :=
        (hsub.trans (since_sublist window ip past)).countP_le
      _ = past.countP fun x => x.hit ip && decide (now < x.now + window) := by
        rw [List.countP_reverse, List.countP_map, List.countP_filter]
        apply List.countP_congr
        intro x _
        rw [Function.comp_apply, Bool.and_comm]
  · rw [haccepted] at hrefused
    cases hrefused

/-- Some request of `u` came after all those of `v`. -/
def Later (p : Event → Bool) (earlier : List Event) (v u : IpAddr) : Prop :=
  ∃ x ∈ earlier, x.ip = u ∧ p x = true ∧ ∀ y ∈ earlier, y.ip = v → p y = true → y.now < x.now

def Full (window : Nat) (e : Event) : Prop :=
  size e.before = maxTrackedClients ∧ ∀ b hits, e.before.lookup b = some hits → active window e.now hits = true

/-- Where a new address finds the table full, one of the others was accepted
before all the rest, and was seen before all the rest. -/
def Aligned (window : Nat) (e : Event) (earlier : List Event) : Prop :=
  e.before.lookup e.ip = none → Full window e → ∃ v, (e.before.lookup v).isSome = true ∧
    ∀ u, (e.before.lookup u).isSome = true → u ≠ v →
      Later (fun x => x.accepted) earlier v u ∧ Later (fun _ => true) earlier v u

theorem tracked_of_evicts {e : Event} (h : e.evicts window a = true) :
    e.after.lookup a = none ∧ ∃ hits, e.before.lookup a = some hits ∧ active window e.now hits = true := by
  rw [Event.evicts, Bool.and_eq_true, Option.isNone_iff_eq_none] at h
  exact ⟨h.1, (Option.any_eq_true _ _).mp h.2⟩

theorem evicts_cases (hlimit : 0 < limit) (e : Event)
    (hcheck : check I limit window e.ip e.now e.before = (e.accepted, e.after))
    (hevicts : e.evicts window a = true) :
    ∃ hits, e.before.lookup a = some hits ∧ active window e.now hits = true ∧ e.before.lookup e.ip = none ∧
      (makeRoom I window e.now e.before).lookup a = none := by
  obtain ⟨hafter, hits, hhits, hactive⟩ := tracked_of_evicts hevicts
  have hout : (check I limit window e.ip e.now e.before).2 = e.after := by rw [hcheck]
  have hne : a ≠ e.ip := by
    rintro rfl
    have hself := lookup_check_self I window hlimit e.ip e.now e.before
    rw [hout, hafter] at hself
    cases hself
  rw [← hout, lookup_check_ne hlimit hne, room] at hafter
  refine ⟨hits, hhits, hactive, ?_⟩
  split at hafter
  next hnew =>
    rw [Bool.and_eq_true, Option.isNone_iff_eq_none] at hnew
    exact ⟨hnew.1, hafter⟩
  next =>
    rw [hhits] at hafter
    cases hafter

/-- Who is evicted was accepted no later than any other. -/
theorem Inv.evicted (h : Inv limit window past inner clock) (hlimit : 0 < limit) {accepted : Bool} {after : Clients}
    (hcheck : check I limit window ip now inner = (accepted, after))
    (hevicts : Event.evicts window ⟨ip, now, accepted, inner, after⟩ a = true) :
    inner.lookup ip = none ∧ Full window ⟨ip, now, accepted, inner, after⟩ ∧
      ∀ b, (inner.lookup b).isSome = true → ¬Later (fun x => x.accepted) past b a := by
  obtain ⟨hits, hhits, hactive, hnew, hgone⟩ :=
    evicts_cases hlimit ⟨ip, now, accepted, inner, after⟩ hcheck hevicts
  obtain ⟨hsize, hall, hmin⟩ := makeRoom_evicts h.size_le hhits hactive hgone
  refine ⟨hnew, ⟨hsize, hall⟩, fun b hb hlater => ?_⟩
  obtain ⟨hits', hhits'⟩ := Option.isSome_iff_exists.mp hb
  obtain ⟨last, hlast, -, hlatest⟩ := h.latest hhits
  obtain ⟨last', hlast', ⟨y, hy, hhit, rfl⟩, -⟩ := h.latest hhits'
  obtain ⟨x, hx, hxip, hxaccepted, hbefore⟩ := hlater
  have hle := hmin b hits' hhits'
  rw [hlast, hlast', Option.getD_some, Option.getD_some] at hle
  have hxle := hlatest x hx (Bool.and_eq_true_iff.mpr ⟨hxaccepted, decide_eq_true hxip⟩)
  rw [Event.hit, Bool.and_eq_true, decide_eq_true_eq] at hhit
  have hlt := hbefore y hy hhit.2 hhit.1
  omega

end Steps

section Results

variable {I : Iteration IpAddr (List Nat)} {limit window : Nat} {past : List Event} {inner : Clients} {clock : Nat}

/-- The table is bounded, no window of a kept address holds more than the limit,
a refused address has used up its window, and eviction waits for a table full of
active addresses; it takes the one that was seen before all the others as long as
the order of acceptance does not differ there. -/
theorem rate_limit_holds (hlimit : 0 < limit) (h : Run I limit window past inner clock) :
    size inner ≤ maxTrackedClients ∧
    (∀ ip start, (∀ e ∈ past, start ≤ e.now → e.now < start + window → e.evicts window ip = false) →
      past.countP (fun e => e.hit ip && decide (start ≤ e.now ∧ e.now < start + window)) ≤ limit) ∧
    (∀ e earlier, e :: earlier <:+ past → e.accepted = false →
      limit ≤ earlier.countP fun x => x.hit e.ip && decide (e.now < x.now + window)) ∧
    (∀ e earlier, e :: earlier <:+ past → ∀ a, e.evicts window a = true → size e.before = maxTrackedClients ∧
      ∀ b, (e.before.lookup b).isSome = true → ∃ x ∈ earlier, x.ip = b ∧ e.now < x.now + window) ∧
    ((∀ e earlier, e :: earlier <:+ past → Aligned window e earlier) →
      ∀ e earlier, e :: earlier <:+ past → ∀ a, e.evicts window a = true →
        ∀ b, (e.before.lookup b).isSome = true → b ≠ a → Later (fun _ => true) earlier a b) := by
  refine ⟨(h.inv hlimit).size_le, h.accepted_le hlimit, ?_, ?_, ?_⟩
  · intro e earlier hsuffix hrefused
    obtain ⟨clock', hrun, -, hcheck⟩ := h.suffix hsuffix
    refine (hrun.inv hlimit).refused (I := I) hlimit ?_
    rw [hcheck]
    exact hrefused
  · intro e earlier hsuffix a hevicts
    obtain ⟨clock', hrun, -, hcheck⟩ := h.suffix hsuffix
    obtain ⟨-, ⟨hsize, hactive⟩, -⟩ := (hrun.inv hlimit).evicted hlimit hcheck hevicts
    refine ⟨hsize, fun b hb => ?_⟩
    obtain ⟨hits, hhits⟩ := Option.isSome_iff_exists.mp hb
    obtain ⟨last, hlast, ⟨x, hx, hhit, rfl⟩, -⟩ := (hrun.inv hlimit).latest hhits
    have hrecent : active window e.now hits = true := hactive b hits hhits
    rw [active, hlast, Option.any_some, decide_eq_true_eq] at hrecent
    rw [Event.hit, Bool.and_eq_true, decide_eq_true_eq] at hhit
    exact ⟨x, hx, hhit.2, by omega⟩
  · intro haligned e earlier hsuffix a hevicts b hb hne
    obtain ⟨clock', hrun, -, hcheck⟩ := h.suffix hsuffix
    obtain ⟨hnew, hfull, hmin⟩ := (hrun.inv hlimit).evicted hlimit hcheck hevicts
    obtain ⟨v, hv, hothers⟩ := haligned e earlier hsuffix hnew hfull
    have hav : a = v := by
      by_contra hav
      have htracked : (e.before.lookup a).isSome = true := by
        obtain ⟨-, hits, hhits, -⟩ := tracked_of_evicts hevicts
        rw [hhits]
        rfl
      exact hmin v hv (hothers a htracked hav).1
    subst hav
    exact (hothers b hb hne).2

end Results

section Spray

def client (n : Nat) : IpAddr := .v4 ⟨(beBytes 4 n).toArray, by simp⟩

theorem rate_limit_holds_first :
    size (check Iteration.newestFirst 2 60 (client 1) 5 ∅).2 ≤ maxTrackedClients :=
  (rate_limit_holds (by decide) (Run.start.next (client 1) (Nat.zero_le 5))).1

theorem client_inj {m n : Nat} (hm : m < 256 ^ 4) (hn : n < 256 ^ 4) (h : client m = client n) : m = n := by
  apply beBytes_inj hm hn
  simpa [client] using h

variable {I : Iteration IpAddr (List Nat)} {inner : Clients} {ip : IpAddr}

theorem check_fresh {now : Nat} (hnew : inner.lookup ip = none) (hsize : size inner < maxTrackedClients) :
    check I 1 60 ip now inner = (true, inner.insert ip [now]) := by
  have hroom : room I 60 ip now inner = inner := by
    rw [room, if_neg]
    rw [Bool.and_eq_true, decide_eq_true_eq]
    omega
  rw [check, if_neg one_ne_zero, hroom]
  dsimp only
  rw [hnew]
  rfl

/-- One address first, and the others a little later. -/
theorem run_spray (I : Iteration IpAddr (List Nat)) {ips : List IpAddr} (hnodup : (ips ++ [client 0]).Nodup)
    (hlen : ips.length < maxTrackedClients) :
    ∃ past inner clock, Run I 1 60 past inner clock ∧ clock ≤ 1 ∧ size inner = ips.length + 1 ∧
      inner.lookup (client 0) = some [0] ∧ (∀ b ∈ ips, inner.lookup b = some [1]) ∧
      ∀ b, b ∉ ips ++ [client 0] → inner.lookup b = none := by
  induction ips with
  | nil =>
      have hfirst : check I 1 60 (client 0) 0 ∅ = (true, AList.insert (client 0) [0] ∅) :=
        check_fresh rfl (by decide)
      have hrun : Run I 1 60 _ _ 0 := Run.start.next (client 0) (le_refl 0)
      rw [hfirst] at hrun
      refine ⟨_, _, _, hrun, Nat.zero_le 1, rfl, AList.lookup_insert _, ?_, ?_⟩
      · intro b hb
        cases hb
      · intro b hb
        rw [AList.lookup_insert_ne (fun heq => hb (List.mem_singleton.mpr heq))]
        rfl
  | cons ip ips ih =>
      rw [List.cons_append, List.nodup_cons] at hnodup
      rw [List.length_cons] at hlen
      obtain ⟨past, inner, clock, hrun, hclock, hsize, hzero, hones, hnone⟩ := ih hnodup.2 (by omega)
      have hnext := hrun.next ip hclock
      rw [check_fresh (hnone ip hnodup.1) (by omega)] at hnext
      refine ⟨_, _, _, hnext, le_refl 1, ?_, ?_, ?_, ?_⟩
      · rw [size_insert_new _ (hnone ip hnodup.1), hsize, List.length_cons]
      · have hne : client 0 ≠ ip := by
          rintro rfl
          exact hnodup.1 (List.mem_append_right ips (List.mem_singleton_self _))
        rw [AList.lookup_insert_ne hne, hzero]
      · intro b hb
        rw [lookup_insert_eq]
        split
        next => rfl
        next hne => exact hones b (List.mem_of_ne_of_mem hne hb)
      · intro b hb
        rw [List.cons_append, List.mem_cons, not_or] at hb
        rw [AList.lookup_insert_ne hb.1]
        exact hnone b hb.2

def others : List IpAddr := (List.range' 1 (maxTrackedClients - 1)).map client

theorem nodup_others : (others ++ [client 0]).Nodup := by
  have hsmall : maxTrackedClients = 4096 := rfl
  refine List.Nodup.append (List.Nodup.map_on ?_ List.nodup_range') (List.nodup_singleton _) ?_
  · intro m hm n hn h
    rw [List.mem_range'_1] at hm hn
    exact client_inj (by omega) (by omega) h
  · intro b hb hzero
    obtain ⟨n, hn, rfl⟩ := List.mem_map.mp hb
    rw [List.mem_range'_1] at hn
    have heq := client_inj (by omega) (by omega) (List.mem_singleton.mp hzero)
    omega

/-- In a full table of active addresses the one that was accepted first goes. -/
theorem makeRoom_first {now : Nat} {a : IpAddr} {hits : List Nat} (hsize : size inner = maxTrackedClients)
    (hall : ∀ b v, inner.lookup b = some v → active 60 now v = true)
    (hfirst : ∀ b v, inner.lookup b = some v → b ≠ a → hits.getLast?.getD now < v.getLast?.getD now)
    (ha : inner.lookup a = some hits) : (makeRoom I 60 now inner).lookup a = none := by
  have hcount := (count_eq_size_iff (active 60 now) inner).mpr hall
  have hkept {b : IpAddr} {v : List Nat} (hb : inner.lookup b = some v) :
      (retain (active 60 now) inner).lookup b = some v := by
    rw [lookup_retain, hb, Option.filter_some, if_pos (hall b v hb)]
  rw [makeRoom, if_neg (by rw [size_retain]; omega)]
  split
  next k hk =>
    obtain ⟨v, hv, hmin⟩ := oldest_spec hk
    have hka : k = a := by
      by_contra hne
      have hlt := hfirst k v (lookup_of_lookup_retain hv) hne
      have hle := hmin a hits (hkept ha)
      omega
    rw [hka, AList.lookup_erase]
  next hnone =>
    have hempty := oldest_eq_none hnone
    have hpos : 0 < maxTrackedClients := by decide
    rw [size_retain] at hempty
    omega

theorem check_refused {now : Nat} (htracked : inner.lookup ip = some [0]) (hnow : now < 60) :
    check I 1 60 ip now inner = (false, inner.insert ip [0]) := by
  have hentry : popFront 60 now [0] = [0] := by
    rw [popFront, List.dropWhile_cons_of_neg]
    simpa using hnow
  rw [check, if_neg one_ne_zero, room_eq_of_tracked (by rw [htracked]; rfl)]
  dsimp only
  rw [htracked, Option.getD_some, hentry]
  rfl

/-- An address that keeps trying is refused, and is forgotten first. -/
theorem refused_address_evicted :
    ∃ e earlier inner clock, Run Iteration.newestFirst 1 60 (e :: earlier) inner clock ∧
      e.evicts 60 (client 0) = true ∧ (e.before.lookup (client 1)).isSome = true ∧
      ¬Later (fun _ => true) earlier (client 0) (client 1) := by
  have hlen : others.length + 1 = maxTrackedClients := by
    rw [others, List.length_map, List.length_range']
    rfl
  obtain ⟨past, inner, clock, hrun, hclock, hsize, hzero, hones, hnone⟩ :=
    run_spray Iteration.newestFirst nodup_others (by omega)
  have hagain := hrun.next (client 0) (show clock ≤ 2 by omega)
  have hlast := hagain.next (client maxTrackedClients) (show 2 ≤ 3 by decide)
  rw [check_refused hzero (by decide)] at hagain hlast
  have hlookup {b : IpAddr} : (inner.insert (client 0) [0]).lookup b = inner.lookup b := by
    rw [lookup_insert_eq]
    split
    next heq => rw [heq, hzero]
    next => rfl
  have hothers {b : IpAddr} {v : List Nat} (hb : inner.lookup b = some v) : b = client 0 ∧ v = [0] ∨ v = [1] := by
    by_cases hmem : b ∈ others ++ [client 0]
    · rcases List.mem_append.mp hmem with hmem | hmem
      · exact .inr (Option.some.inj (hb.symm.trans (hones b hmem)))
      · have heq := List.mem_singleton.mp hmem
        rw [heq, hzero] at hb
        exact .inl ⟨heq, (Option.some.inj hb).symm⟩
    · rw [hnone b hmem] at hb
      cases hb
  have hfresh : client maxTrackedClients ∉ others ++ [client 0] := by
    intro hmem
    rcases List.mem_append.mp hmem with hmem | hmem
    · obtain ⟨n, hn, heq⟩ := List.mem_map.mp hmem
      rw [List.mem_range'_1] at hn
      have hsame := client_inj (by rw [maxTrackedClients] at hn; omega) (by decide) heq
      rw [maxTrackedClients] at hn hsame
      omega
    · have hsame := client_inj (by decide) (by decide) (List.mem_singleton.mp hmem)
      cases hsame
  have hsize' : size (inner.insert (client 0) [0]) = maxTrackedClients := by
    rw [size_insert_present _ (by rw [hzero]; rfl), hsize, hlen]
  refine ⟨_, _, _, _, hlast, ?_, ?_, ?_⟩
  · have hne : client 0 ≠ client maxTrackedClients := by
      intro heq
      exact hfresh (heq ▸ List.mem_append_right _ (List.mem_singleton_self _))
    have hroom : room Iteration.newestFirst 60 (client maxTrackedClients) 3 (inner.insert (client 0) [0]) =
        makeRoom Iteration.newestFirst 60 3 (inner.insert (client 0) [0]) := by
      rw [room, if_pos]
      rw [hlookup, hnone _ hfresh, hsize']
      decide
    have hgone : (makeRoom Iteration.newestFirst 60 3 (inner.insert (client 0) [0])).lookup (client 0) = none := by
      refine makeRoom_first hsize' (fun b v hb => ?_) (fun b v hb hneb => ?_) (hlookup.trans hzero)
      · rw [hlookup] at hb
        rcases hothers hb with ⟨-, rfl⟩ | rfl
        · decide
        · decide
      · rw [hlookup] at hb
        rcases hothers hb with ⟨heq, -⟩ | rfl
        · exact absurd heq hneb
        · decide
    rw [Event.evicts, lookup_check_ne Nat.one_pos hne, hroom, hgone, hlookup, hzero]
    rfl
  · rw [hlookup, hones (client 1) (List.mem_map_of_mem (List.mem_range'_1.mpr (by decide)))]
    rfl
  · rintro ⟨x, hx, -, -, hlater⟩
    have hlt : 2 < x.now := hlater _ List.mem_cons_self rfl rfl
    have hle := (hagain.inv Nat.one_pos).le_clock x hx
    omega

end Spray

end NixiSbc.RateLimit
