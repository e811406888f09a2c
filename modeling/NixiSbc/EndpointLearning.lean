import NixiSbc.RelayLoop

namespace NixiSbc.EndpointLearning

open ByteWords Stun NetAddr SrtpKeys SrtpContext Endpoints RtpRelay RelayLoop StateRuns

/-- A datagram on one of the two ports of a leg. -/
structure Received where
  at_ : Nat
  onRtcpPort : Bool
  leg : Leg
  source : SocketAddr
  data : Bytes

/-- The relay and all that has reached its ports, the newest first. -/
structure Watched (γ : Type) where
  relay : Relay γ
  seen : List Received

/-- The clock has gone on until a datagram. -/
def Watched.after {γ : Type} (w : Watched γ) (elapsed : Nat) : Relay γ :=
  { w.relay with nowMs := w.relay.nowMs + elapsed }

section

variable {γ : Type} (cfg : RtpSession γ) (P : Primitives)

def Watched.next (w : Watched γ) (e : Event) : Watched γ where
  relay := RelayLoop.next cfg P w.relay e
  seen :=
    match e with
    | .datagram leg elapsed data source _ => ⟨w.relay.nowMs + elapsed, false, leg, source, data⟩ :: w.seen
    | .rtcp leg elapsed data source => ⟨w.relay.nowMs + elapsed, true, leg, source, data⟩ :: w.seen
    | .store _ => w.seen

/-- It gets past the demultiplexing and is not junk. -/
def reachesMedia (leg : Leg) (data : Bytes) : Bool :=
  (cfg.webrtcMode leg = true → classifyPacket data = .rtp) ∧ inputClass cfg leg data ≠ .junk

def Received.isRtp (d : Received) (leg : Leg) : Bool :=
  d.leg = leg ∧ d.onRtcpPort = false ∧ reachesMedia cfg leg d.data ∧ inputClass cfg leg d.data = .rtp

def lastRtp (seen : List Received) (leg : Leg) : Option Received := seen.find? (·.isRtp cfg leg)

def lastRtpFrom (seen : List Received) (leg : Leg) (source : SocketAddr) : Option Received :=
  seen.find? fun d => d.isRtp cfg leg ∧ d.source = source

/-- Nothing has come from a source for a quiet period. -/
def Silent (seen : List Received) (leg : Leg) (source : SocketAddr) (now quiet : Nat) : Prop :=
  quiet ≤ now ∧ ∀ d ∈ seen, d.leg = leg → d.source = source → d.at_ + quiet ≤ now

/-- The latched peer has gone over to another address, or away. -/
def Evidence (seen : List Received) (leg : Leg) (latched : SocketAddr) (now : Nat) (data : Bytes) : Prop :=
  (lastRtpFrom cfg seen leg latched).any (fun d => u32At d.data 8 = u32At data 8) = true ∨
    Silent seen leg latched now cfg.endpointPolicy.quietPeriod

/-- No later verdict tells the two relays apart. -/
def SameVerdicts (r r' : Relay γ) : Prop :=
  ∀ (events : List Event) leg data source,
    verdict cfg (events.foldl (RelayLoop.next cfg P) r) leg data source =
      verdict cfg (events.foldl (RelayLoop.next cfg P) r') leg data source

/-- A foreign datagram takes the endpoint only with evidence, and one that does
not is as if it had never come. -/
def Guarded (w : Watched γ) : Event → Prop
  | .datagram leg elapsed data source between =>
      let r := w.after elapsed
      ∀ latched, r.endpoint leg = some latched → Foreign (cfg.signalled leg) latched source →
        ((settled cfg P r leg data source).endpoint leg = some source →
          Evidence cfg w.seen leg latched r.nowMs data) ∧
        ((settled cfg P r leg data source).endpoint leg ≠ some source →
          SameVerdicts cfg P (RelayLoop.next cfg P w.relay (.datagram leg elapsed data source between))
            (between.foldl Relay.store r))
  | .rtcp _ _ _ _ | .store _ => True

/-- It carries the SSRC of the last RTP packet on the leg, wherever that came from. -/
def Carries (seen : List Received) (leg : Leg) (data : Bytes) : Prop :=
  ∃ d, lastRtp cfg seen leg = some d ∧ u32At d.data 8 = u32At data 8

def LegQuiet (seen : List Received) (leg : Leg) (now : Nat) : Prop :=
  ∃ d, lastRtp cfg seen leg = some d ∧ d.at_ + cfg.endpointPolicy.quietPeriod ≤ now

/-- A foreign datagram that goes with the last RTP packet of the leg, or comes
long after it, goes with the latched peer too; foreign RTP does one or the other. -/
def Undisturbed (w : Watched γ) : Event → Prop
  | .datagram leg elapsed data source _ =>
      let now := w.relay.nowMs + elapsed
      ∀ latched, w.relay.endpoint leg = some latched → Foreign (cfg.signalled leg) latched source →
        reachesMedia cfg leg data = true →
        (Carries cfg w.seen leg data ∨ LegQuiet cfg w.seen leg now →
          Evidence cfg w.seen leg latched now data) ∧
        (inputClass cfg leg data = .rtp → Carries cfg w.seen leg data ∨ LegQuiet cfg w.seen leg now)
  | .rtcp _ _ _ _ | .store _ => True

end

section Likeness

variable {γ : Type} {cfg : RtpSession γ} {P : Primitives} {r r' r'' : Relay γ} {leg : Leg} {data : Bytes}
  {source : SocketAddr}

/-- Relays that differ at most in what they know of the streams. -/
structure Alike (r r' : Relay γ) : Prop where
  nowMs : r'.nowMs = r.nowMs
  endpoint : r'.endpoint = r.endpoint
  stats : r'.stats = r.stats

theorem Alike.symm (h : Alike r r') : Alike r' r := ⟨h.nowMs.symm, h.endpoint.symm, h.stats.symm⟩

theorem Alike.trans (h : Alike r r') (h' : Alike r' r'') : Alike r r'' :=
  ⟨h'.nowMs.trans h.nowMs, h'.endpoint.trans h.endpoint, h'.stats.trans h.stats⟩

theorem alike_of_advances (h : Advances r r') : Alike r r' := ⟨h.nowMs, h.endpoint, h.stats⟩

theorem Alike.verdict (h : Alike r r') : verdict cfg r' leg data source = verdict cfg r leg data source := by
  simp only [RelayLoop.verdict, observation, h.nowMs, h.endpoint, h.stats]

theorem Alike.learn (h : Alike r r') : Alike (learn cfg r leg data source) (learn cfg r' leg data source) := by
  constructor
  · exact h.nowMs
  · simp only [RelayLoop.learn, Relay.setEndpoint_endpoint, h.verdict, h.endpoint]
  · simp only [RelayLoop.learn, h.nowMs, h.stats]

theorem Alike.learnFirst (h : Alike r r') : Alike (learnFirst r leg source) (learnFirst r' leg source) := by
  unfold RelayLoop.learnFirst
  rw [h.endpoint]
  split
  next => exact ⟨h.nowMs, by simp only [Relay.setEndpoint_endpoint, h.endpoint], h.stats⟩
  next => exact h

theorem Alike.settled (h : Alike r r') :
    Alike (settled cfg P r leg data source) (settled cfg P r' leg data source) := by
  have hmedia : Alike (if inputClass cfg leg data = .junk then r else RelayLoop.learn cfg r leg data source)
      (if inputClass cfg leg data = .junk then r' else RelayLoop.learn cfg r' leg data source) := by
    split
    next => exact h
    next => exact h.learn
  unfold RelayLoop.settled
  cases cfg.webrtcMode leg with
  | false => exact hmedia
  | true =>
      cases classifyPacket data with
      | stun =>
          cases refusedCheck cfg P leg data with
          | false => exact h.learnFirst
          | true => exact h
      | dtls => exact h.learnFirst
      | rtp => exact hmedia
      | rtcp | unknown => exact h

theorem Alike.stores (h : Alike r r') (stores : List Store) :
    Alike (stores.foldl Relay.store r) (stores.foldl Relay.store r') := by
  induction stores generalizing r r' with
  | nil => exact h
  | cons s stores ih =>
      apply ih
      cases s with
      | srtp slot ctx => exact ⟨h.nowMs, h.endpoint, h.stats⟩
      | endpoint l addr =>
          exact ⟨h.nowMs, by simp only [Relay.store, Relay.setEndpoint_endpoint, h.endpoint], h.stats⟩

/-- What a datagram does to the endpoints and the counters. -/
theorem alike_datagram (r : Relay γ) (leg : Leg) (elapsed : Nat) (data : Bytes) (source : SocketAddr)
    (between : List Store) :
    Alike (between.foldl Relay.store (settled cfg P { r with nowMs := r.nowMs + elapsed } leg data source))
      (RelayLoop.next cfg P r (.datagram leg elapsed data source between)) := by
  obtain ⟨r₁, hdecrypted, hrest⟩ :=
    advances_onDatagram cfg P { r with nowMs := r.nowMs + elapsed } leg data source between
  exact ((alike_of_advances hdecrypted).stores between).trans (alike_of_advances hrest)

theorem Alike.next (h : Alike r r') (e : Event) :
    Alike (RelayLoop.next cfg P r e) (RelayLoop.next cfg P r' e) := by
  cases e with
  | datagram leg elapsed data source between =>
      have hclock : Alike { r with nowMs := r.nowMs + elapsed } { r' with nowMs := r'.nowMs + elapsed } :=
        ⟨congrArg (· + elapsed) h.nowMs, h.endpoint, h.stats⟩
      exact ((alike_datagram r leg elapsed data source between).symm.trans
        (hclock.settled.stores between)).trans (alike_datagram r' leg elapsed data source between)
  | rtcp leg elapsed data source => exact ⟨congrArg (· + elapsed) h.nowMs, h.endpoint, h.stats⟩
  | store s => exact h.stores [s]

/-- Verdicts rest on nothing else, on any later run. -/
theorem Alike.sameVerdicts (h : Alike r r') : SameVerdicts cfg P r r' := by
  intro events
  induction events generalizing r r' with
  | nil => exact fun leg data source => h.verdict.symm
  | cons e events ih => exact ih (h.next e)

end Likeness

section Counters

variable {γ : Type} {cfg : RtpSession γ} {P : Primitives} {r : Relay γ} {w : Watched γ} {leg : Leg}
  {data : Bytes} {source latched : SocketAddr}

theorem settled_of_media (h : reachesMedia cfg leg data = true) :
    settled cfg P r leg data source = learn cfg r leg data source := by
  obtain ⟨hrtp, hclass⟩ := of_decide_eq_true h
  unfold settled
  cases hweb : cfg.webrtcMode leg with
  | false => simp [hclass]
  | true => simp [hclass, hrtp hweb]

/-- What is not media teaches nothing to a leg that has an endpoint. -/
theorem settled_of_not_media (h : reachesMedia cfg leg data = false) (hlatched : r.endpoint leg = some latched) :
    settled cfg P r leg data source = r := by
  have hfirst : learnFirst r leg source = r := by simp [learnFirst, hlatched]
  rw [reachesMedia, decide_eq_false_iff_not] at h
  unfold settled
  cases hweb : cfg.webrtcMode leg with
  | false => simp_all
  | true => cases hclass : classifyPacket data <;> simp_all

theorem stats_settled :
    (settled cfg P r leg data source).stats =
      if reachesMedia cfg leg data = true ∧ inputClass cfg leg data = .rtp then
        Function.update r.stats leg (noteRx (r.stats leg) r.nowMs data)
      else r.stats := by
  cases hmedia : reachesMedia cfg leg data with
  | true =>
      rw [settled_of_media hmedia]
      simp [learn]
  | false =>
      have hfirst : (learnFirst r leg source).stats = r.stats := by
        unfold learnFirst
        split
        next => rfl
        next => rfl
      rw [if_neg (by simp)]
      rw [reachesMedia, decide_eq_false_iff_not] at hmedia
      unfold settled
      cases hweb : cfg.webrtcMode leg with
      | false => simp_all
      | true =>
          cases hclass : classifyPacket data with
          | stun => cases hrefused : refusedCheck cfg P leg data <;> simp_all
          | dtls => simp_all
          | rtp => simp_all
          | rtcp | unknown => simp_all

theorem nowMs_stores (stores : List Store) : (stores.foldl Relay.store r).nowMs = r.nowMs := by
  induction stores generalizing r with
  | nil => rfl
  | cons s stores ih =>
      rw [List.foldl_cons, ih]
      cases s with
      | srtp slot ctx | endpoint l addr => rfl

theorem nowMs_settled : (settled cfg P r leg data source).nowMs = r.nowMs := by
  have hfirst : (learnFirst r leg source).nowMs = r.nowMs := by
    unfold learnFirst
    split
    next => rfl
    next => rfl
  have hmedia : (if inputClass cfg leg data = .junk then r else learn cfg r leg data source).nowMs = r.nowMs := by
    split
    next => rfl
    next => rfl
  unfold settled
  cases cfg.webrtcMode leg with
  | false => exact hmedia
  | true =>
      cases classifyPacket data with
      | stun =>
          cases refusedCheck cfg P leg data with
          | false => exact hfirst
          | true => rfl
      | dtls => exact hfirst
      | rtp => exact hmedia
      | rtcp | unknown => rfl

/-- The counters of a leg are those of its last RTP packet. -/
structure Mirrors (cfg : RtpSession γ) (w : Watched γ) : Prop where
  past : ∀ d ∈ w.seen, d.at_ ≤ w.relay.nowMs
  unheard : ∀ leg, lastRtp cfg w.seen leg = none → w.relay.stats leg = .new
  heard : ∀ leg d, lastRtp cfg w.seen leg = some d →
    (w.relay.stats leg).ssrc = some (u32At d.data 8) ∧ (w.relay.stats leg).lastRxMs = d.at_ ∧
      0 < (w.relay.stats leg).rxPackets

theorem mirrors_new (endpoint : Leg → Option SocketAddr) (codec : γ) : Mirrors cfg ⟨.new endpoint codec, []⟩ :=
  ⟨nofun, fun _ _ => rfl, nofun⟩

theorem lastRtp_cons (d : Received) (seen : List Received) (leg : Leg) :
    lastRtp cfg (d :: seen) leg = if d.isRtp cfg leg then some d else lastRtp cfg seen leg := by
  rw [lastRtp, List.find?_cons]
  cases d.isRtp cfg leg <;> rfl

/-- A newcomer that counts is what the counters now say, and one that does not
leaves them alone. -/
theorem Mirrors.cons (h : Mirrors cfg w) {w' : Watched γ} {d : Received} (hseen : w'.seen = d :: w.seen)
    (hnow : d.at_ ≤ w'.relay.nowMs) (hlater : w.relay.nowMs ≤ w'.relay.nowMs)
    (hcounts : ∀ leg, d.isRtp cfg leg = true → (w'.relay.stats leg).ssrc = some (u32At d.data 8) ∧
      (w'.relay.stats leg).lastRxMs = d.at_ ∧ 0 < (w'.relay.stats leg).rxPackets)
    (hother : ∀ leg, d.isRtp cfg leg = false → w'.relay.stats leg = w.relay.stats leg) : Mirrors cfg w' := by
  constructor
  · intro d' hd'
    rw [hseen] at hd'
    rcases List.mem_cons.mp hd' with rfl | hd'
    · exact hnow
    · exact (h.past d' hd').trans hlater
  · intro leg hnone
    rw [hseen, lastRtp_cons] at hnone
    split at hnone
    next => cases hnone
    next hrtp =>
      rw [hother leg (by simpa using hrtp)]
      exact h.unheard leg hnone
  · intro leg d' hlast
    rw [hseen, lastRtp_cons] at hlast
    split at hlast
    next hrtp =>
      obtain rfl := Option.some.inj hlast
      exact hcounts leg hrtp
    next hrtp =>
      rw [hother leg (by simpa using hrtp)]
      exact h.heard leg d' hlast

theorem Mirrors.next (h : Mirrors cfg w) (e : Event) : Mirrors cfg (w.next cfg P e) := by
  cases e with
  | datagram leg elapsed data source between =>
      have halike : Alike _ (RelayLoop.next cfg P w.relay _) :=
        alike_datagram w.relay leg elapsed data source between
      have hstats := halike.stats
      rw [stats_stores, stats_settled] at hstats
      have hnow : (w.next cfg P (.datagram leg elapsed data source between)).relay.nowMs =
          w.relay.nowMs + elapsed := by
        have hnow := halike.nowMs
        rwa [nowMs_stores, nowMs_settled] at hnow
      refine h.cons rfl (le_of_eq hnow.symm) (hnow ▸ Nat.le_add_right _ _) ?_ ?_
      · intro l hrtp
        simp only [Received.isRtp, decide_eq_true_eq] at hrtp
        obtain ⟨rfl, -, hmedia, hclass⟩ := hrtp
        have hcount := congrFun hstats leg
        rw [if_pos ⟨hmedia, hclass⟩, Function.update_self] at hcount
        rw [show (w.next cfg P (.datagram leg elapsed data source between)).relay.stats leg = _ from hcount]
        exact ⟨rfl, rfl, Nat.succ_pos _⟩
      · intro l hrtp
        have hcount := congrFun hstats l
        rw [show (w.next cfg P (.datagram leg elapsed data source between)).relay.stats l = _ from hcount]
        simp only [Received.isRtp, decide_eq_false_iff_not, true_and] at hrtp
        split
        next hmedia =>
          rw [Function.update_of_ne]
          rintro rfl
          exact hrtp ⟨rfl, hmedia⟩
        next => rfl
  | rtcp leg elapsed data source =>
      refine h.cons rfl le_rfl (Nat.le_add_right _ _) (fun l hrtp => ?_) (fun _ _ => rfl)
      simp [Received.isRtp] at hrtp
  | store s =>
      have hstats : (w.next cfg P (.store s)).relay.stats = w.relay.stats := stats_stores [s]
      have hnow : (w.next cfg P (.store s)).relay.nowMs = w.relay.nowMs := nowMs_stores [s]
      constructor
      · intro d hd
        rw [hnow]
        exact h.past d hd
      · intro leg hnone
        rw [hstats]
        exact h.unheard leg hnone
      · intro leg d hlast
        rw [hstats]
        exact h.heard leg d hlast

/-- The two rungs that are left to a foreign source look at the counters of the leg. -/
theorem Mirrors.sameStream (h : Mirrors cfg w) (hlong : 12 ≤ data.length) (elapsed : Nat) :
    (observation cfg (w.after elapsed) leg data source).sameStream = true ↔
      Carries cfg w.seen leg data := by
  simp only [observation, Watched.after, decide_eq_true_eq, hlong, true_and]
  constructor
  · intro hssrc
    cases hlast : lastRtp cfg w.seen leg with
    | none => simp [h.unheard leg hlast, LegStats.new] at hssrc
    | some d =>
        rw [(h.heard leg d hlast).1] at hssrc
        exact ⟨d, hlast, Option.some.inj hssrc⟩
  · rintro ⟨d, hlast, hssrc⟩
    rw [(h.heard leg d hlast).1, hssrc]

theorem Mirrors.quiet (h : Mirrors cfg w) (elapsed : Nat) :
    (observation cfg (w.after elapsed) leg data source).latchedQuietFor.any
        (cfg.endpointPolicy.quietPeriod ≤ ·) = true ↔
      LegQuiet cfg w.seen leg (w.relay.nowMs + elapsed) := by
  change (quietFor (w.relay.stats leg) (w.relay.nowMs + elapsed)).any _ = true ↔ _
  rw [quietFor]
  cases hlast : lastRtp cfg w.seen leg with
  | none => simp [h.unheard leg hlast, LegStats.new, LegQuiet, hlast]
  | some d =>
      obtain ⟨-, hat, hpos⟩ := h.heard leg d hlast
      have hpast := h.past d (List.mem_of_find?_eq_some hlast)
      rw [if_neg (by omega), hat]
      simp only [Option.any_some, decide_eq_true_eq, LegQuiet, hlast, Option.some.injEq]
      constructor
      · intro hquiet
        exact ⟨d, rfl, by omega⟩
      · rintro ⟨d', rfl, hquiet⟩
        omega

end Counters

section Runs

variable {γ : Type} {cfg : RtpSession γ} {P : Primitives} {r r' : Relay γ} {w : Watched γ} {leg : Leg}
  {data : Bytes} {source latched : SocketAddr} {elapsed : Nat} {between : List Store}

theorem looksLikeRtp_of_reachesMedia (h : reachesMedia cfg leg data = true) : looksLikeRtp data = true := by
  obtain ⟨hrtp, hclass⟩ := of_decide_eq_true h
  cases hweb : cfg.webrtcMode leg with
  | true => exact looksLikeRtp_of_media (hrtp hweb) hclass
  | false =>
      by_contra hshape
      cases data with
      | nil => exact hclass rfl
      | cons b bs => simp [inputClass, classifyMediaInput, hweb, hshape] at hclass

theorem verdict_congr (hnow : r'.nowMs = r.nowMs) (hendpoint : r'.endpoint leg = r.endpoint leg)
    (hstats : r'.stats leg = r.stats leg) : verdict cfg r' leg data source = verdict cfg r leg data source := by
  simp only [verdict, observation, hnow, hendpoint, hstats]

theorem verdict_foreign (hmedia : reachesMedia cfg leg data = true) (hlatched : r.endpoint leg = some latched)
    (hforeign : Foreign (cfg.signalled leg) latched source) :
    verdict cfg r leg data source =
      if (observation cfg r leg data source).sameStream then .move .sameStream
      else if (observation cfg r leg data source).latchedQuietFor.any (cfg.endpointPolicy.quietPeriod ≤ ·) then
        .move .quiet
      else .refuse .foreign :=
  observe_foreign (looksLikeRtp_of_reachesMedia hmedia) hlatched hforeign

/-- A foreign source takes the endpoint by the last RTP packet of the leg. -/
theorem endpoint_taken (h : Mirrors cfg w) (hmedia : reachesMedia cfg leg data = true)
    (hlatched : w.relay.endpoint leg = some latched) (hforeign : Foreign (cfg.signalled leg) latched source)
    (hlast : Carries cfg w.seen leg data ∨ LegQuiet cfg w.seen leg (w.relay.nowMs + elapsed)) :
    (settled cfg P (w.after elapsed) leg data source).endpoint leg = some source := by
  have hlong := (of_decide_eq_true (looksLikeRtp_of_reachesMedia hmedia)).1
  have hverdict : verdict cfg (w.after elapsed) leg data source = .move .sameStream ∨
      verdict cfg (w.after elapsed) leg data source = .move .quiet := by
    rw [verdict_foreign (r := w.after elapsed) hmedia hlatched hforeign]
    rcases hlast with hcarries | hquiet
    · exact Or.inl (if_pos ((h.sameStream hlong elapsed).mpr hcarries))
    · split
      next => exact Or.inl rfl
      next => exact Or.inr (if_pos ((h.quiet elapsed).mpr hquiet))
  rw [settled_of_media hmedia]
  simp only [learn, Relay.setEndpoint_endpoint, Function.update_self]
  rcases hverdict with hverdict | hverdict
  · rw [hverdict]
    rfl
  · rw [hverdict]
    rfl

theorem verdict_refused (h : Mirrors cfg w) (hmedia : reachesMedia cfg leg data = true)
    (hlatched : w.relay.endpoint leg = some latched) (hforeign : Foreign (cfg.signalled leg) latched source)
    (hlast : ¬(Carries cfg w.seen leg data ∨ LegQuiet cfg w.seen leg (w.relay.nowMs + elapsed))) :
    verdict cfg (w.after elapsed) leg data source = .refuse .foreign := by
  obtain ⟨hcarries, hquiet⟩ := not_or.mp hlast
  have hlong := (of_decide_eq_true (looksLikeRtp_of_reachesMedia hmedia)).1
  rw [verdict_foreign (r := w.after elapsed) hmedia hlatched hforeign, if_neg fun hs => hcarries ((h.sameStream hlong elapsed).mp hs),
    if_neg fun hq => hquiet ((h.quiet elapsed).mp hq)]

/-- A refused datagram leaves the endpoints as they are. -/
theorem endpoint_refused (hmode : cfg.endpointPolicy.mode = .moves) (h : Mirrors cfg w)
    (hmedia : reachesMedia cfg leg data = true) (hlatched : w.relay.endpoint leg = some latched)
    (hforeign : Foreign (cfg.signalled leg) latched source)
    (hlast : ¬(Carries cfg w.seen leg data ∨ LegQuiet cfg w.seen leg (w.relay.nowMs + elapsed))) :
    (settled cfg P (w.after elapsed) leg data source).endpoint = w.relay.endpoint := by
  rw [settled_of_media hmedia]
  simp only [learn, Relay.setEndpoint_endpoint, verdict_refused h hmedia hlatched hforeign hlast,
    EndpointPolicy.settle, EndpointPolicy.applies, hmode]
  exact Function.update_eq_self leg w.relay.endpoint

/-- One that is not RTP leaves the counters as they are too. -/
theorem sameVerdicts_of_kept
    (hendpoint : (settled cfg P (w.after elapsed) leg data source).endpoint = (w.after elapsed).endpoint)
    (hstats : (settled cfg P (w.after elapsed) leg data source).stats = (w.after elapsed).stats) :
    SameVerdicts cfg P (RelayLoop.next cfg P w.relay (.datagram leg elapsed data source between))
      (between.foldl Relay.store (w.after elapsed)) := by
  have hkept : Alike (settled cfg P (w.after elapsed) leg data source) (w.after elapsed) :=
    ⟨nowMs_settled.symm, hendpoint.symm, hstats.symm⟩
  exact ((alike_datagram w.relay leg elapsed data source between).symm.trans (hkept.stores between)).sameVerdicts

theorem endpoint_stored (addr : SocketAddr) :
    (RelayLoop.next cfg P r (.store (.endpoint leg addr))).endpoint leg = some addr := by
  change Function.update r.endpoint leg (some addr) leg = some addr
  rw [Function.update_self]

/-- A refused RTP packet leaves its SSRC behind, which opens the leg to its source. -/
theorem not_sameVerdicts_of_rtp (h : Mirrors cfg w) (hmedia : reachesMedia cfg leg data = true)
    (hrtp : inputClass cfg leg data = .rtp) (hlatched : w.relay.endpoint leg = some latched)
    (hforeign : Foreign (cfg.signalled leg) latched source)
    (hlast : ¬(Carries cfg w.seen leg data ∨ LegQuiet cfg w.seen leg (w.relay.nowMs + elapsed))) :
    ¬SameVerdicts cfg P (RelayLoop.next cfg P w.relay (.datagram leg elapsed data source between))
      (between.foldl Relay.store (w.after elapsed)) := by
  intro hsame
  -- the endpoint is put back, should a task have changed it in between
  have hverdicts := hsame [.store (.endpoint leg latched)] leg data source
  simp only [List.foldl_cons, List.foldl_nil] at hverdicts
  have hwithout : verdict cfg (RelayLoop.next cfg P (between.foldl Relay.store (w.after elapsed))
      (.store (.endpoint leg latched))) leg data source = .refuse .foreign := by
    rw [verdict_congr (r := w.after elapsed)]
    · exact verdict_refused h hmedia hlatched hforeign hlast
    · exact nowMs_stores between
    · exact (endpoint_stored latched).trans hlatched.symm
    · exact congrFun (stats_stores between) leg
  have hwith : verdict cfg (RelayLoop.next cfg P
      (RelayLoop.next cfg P w.relay (.datagram leg elapsed data source between))
      (.store (.endpoint leg latched))) leg data source = .move .sameStream := by
    have halike : Alike _ (RelayLoop.next cfg P w.relay _) :=
      alike_datagram w.relay leg elapsed data source between
    have hstats := halike.stats
    rw [stats_stores, stats_settled, if_pos ⟨hmedia, hrtp⟩] at hstats
    have hlong := (of_decide_eq_true (looksLikeRtp_of_reachesMedia hmedia)).1
    rw [verdict_foreign hmedia (endpoint_stored latched) hforeign, if_pos]
    simp only [observation, decide_eq_true_eq]
    refine ⟨hlong, ?_⟩
    exact congrArg LegStats.ssrc ((congrFun hstats leg).trans (Function.update_self leg _ _))
  rw [hwith, hwithout] at hverdicts
  cases hverdicts

/-- One step is guarded just when it is undisturbed. -/
theorem guarded_iff (hmode : cfg.endpointPolicy.mode = .moves) (h : Mirrors cfg w) (e : Event) :
    Guarded cfg P w e ↔ Undisturbed cfg w e := by
  cases e with
  | datagram leg elapsed data source between =>
      simp only [Guarded, Undisturbed]
      refine forall_congr' fun latched => forall_congr' fun hlatched => forall_congr' fun hforeign => ?_
      have hne : some latched ≠ some source := fun he => hforeign.2 (congrArg ip (Option.some.inj he))
      cases hmedia : reachesMedia cfg leg data with
      | false =>
          have hsettled : settled cfg P (w.after elapsed) leg data source = w.after elapsed :=
            settled_of_not_media hmedia hlatched
          have hendpoint : (settled cfg P (w.after elapsed) leg data source).endpoint leg = some latched := by
            rw [hsettled]
            exact hlatched
          constructor
          · exact fun _ => nofun
          · intro _
            refine ⟨fun htaken => absurd (hendpoint.symm.trans htaken) hne, fun _ => ?_⟩
            exact sameVerdicts_of_kept (congrArg Relay.endpoint hsettled) (congrArg Relay.stats hsettled)
      | true =>
          by_cases hlast : Carries cfg w.seen leg data ∨ LegQuiet cfg w.seen leg (w.relay.nowMs + elapsed)
          · have htaken : (settled cfg P (w.after elapsed) leg data source).endpoint leg = some source :=
              endpoint_taken h hmedia hlatched hforeign hlast
            constructor
            · rintro ⟨hevidence, -⟩ -
              exact ⟨fun _ => hevidence htaken, fun _ => hlast⟩
            · intro hundisturbed
              exact ⟨fun _ => (hundisturbed rfl).1 hlast, fun hkept => absurd htaken hkept⟩
          · have hkept : (settled cfg P (w.after elapsed) leg data source).endpoint = w.relay.endpoint :=
              endpoint_refused hmode h hmedia hlatched hforeign hlast
            have hrefused : (settled cfg P (w.after elapsed) leg data source).endpoint leg ≠ some source := by
              rw [hkept]
              exact fun htaken => hne (hlatched.symm.trans htaken)
            constructor
            · rintro ⟨-, hsame⟩ -
              refine ⟨fun hl => absurd hl hlast, fun hrtp => ?_⟩
              exact absurd (hsame hrefused) (not_sameVerdicts_of_rtp h hmedia hrtp hlatched hforeign hlast)
            · intro hundisturbed
              refine ⟨fun htaken => absurd htaken hrefused, fun _ => sameVerdicts_of_kept hkept ?_⟩
              rw [stats_settled, if_neg fun hcounted => hlast ((hundisturbed rfl).2 hcounted.2)]
  | rtcp leg elapsed data source | store s => exact Iff.rfl

/-- In the mode that refuses foreign sources a run is guarded all along just when
it is undisturbed: no RTP comes from a foreign source unless it goes with the last
RTP packet of the leg or comes long after it, and what does goes with the latched
peer as well. -/
theorem moves_guarded_iff (hmode : cfg.endpointPolicy.mode = .moves) (endpoint : Leg → Option SocketAddr)
    (codec : γ) (events : List Event) :
    Throughout (Watched.next cfg P) (Guarded cfg P) ⟨.new endpoint codec, []⟩ events ↔
      Throughout (Watched.next cfg P) (Undisturbed cfg) ⟨.new endpoint codec, []⟩ events :=
  throughout_iff (I := Mirrors cfg) (fun _ e hw => guarded_iff hmode hw e) (fun _ e hw _ => hw.next e)
    (mirrors_new endpoint codec)

end Runs

/-- A plain call in the mode that refuses foreign sources. -/
def movesCall : RtpSession Unit where
  webrtcMode _ := false
  icePwdLocal _ := none
  dtmfPt _ := none
  transcoder _ := none
  endpointPolicy := ⟨.moves, 5000⟩
  signalled _ := some (ofOctets 203 0 113 9 6004)

def rtpWith (ssrc : UInt8) : Bytes := [0x80, 0, 0, 1, 0, 0, 0, 0, 0, 0, 0, ssrc]

/-- The peer, and twice the same packet of a stranger. -/
def takeover : List Event :=
  [.datagram .a 20 (rtpWith 7) (ofOctets 203 0 113 9 6004) [],
    .datagram .a 20 (rtpWith 9) (ofOctets 198 51 100 7 6004) [],
    .datagram .a 20 (rtpWith 9) (ofOctets 198 51 100 7 6004) []]

theorem movesCall_guarded_iff :
    Throughout (Watched.next movesCall echoPrimitives) (Guarded movesCall echoPrimitives)
        ⟨.new movesCall.signalled (), []⟩ takeover ↔
      Throughout (Watched.next movesCall echoPrimitives) (Undisturbed movesCall)
        ⟨.new movesCall.signalled (), []⟩ takeover :=
  moves_guarded_iff rfl movesCall.signalled () takeover

/-- The first of the stranger's packets is refused; the second takes the endpoint. -/
theorem stranger_takes_over :
    ¬Throughout (Watched.next movesCall echoPrimitives) (Guarded movesCall echoPrimitives)
      ⟨.new movesCall.signalled (), []⟩ takeover := by
  rintro ⟨-, -, hguarded, -⟩
  have hforeign : Foreign (movesCall.signalled .a) (ofOctets 203 0 113 9 6004) (ofOctets 198 51 100 7 6004) :=
    ⟨by rintro _ ⟨⟩; exact ⟨by decide, by decide⟩, by decide⟩
  rcases (hguarded (ofOctets 203 0 113 9 6004) (by decide) hforeign).1 (by decide) with hsame | ⟨-, hsilent⟩
  · exact absurd hsame (by decide)
  · exact absurd (hsilent _ (List.mem_cons_of_mem _ List.mem_cons_self) rfl rfl) (by decide)

end NixiSbc.EndpointLearning
