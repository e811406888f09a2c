import NixiSbc.RelayLoop

namespace NixiSbc.WebRtcEndpoints

open ByteWords Stun NetAddr SrtpKeys SrtpContext StunIntegrity Endpoints RtpRelay RelayLoop StateRuns

section

variable {γ : Type} (cfg : RtpSession γ) (P : Primitives)

/-- What teaches the relay a new endpoint for a WebRTC leg whose password is known. -/
inductive Learns (r : Relay γ) (leg : Leg) (pwd : List Char) : Event → SocketAddr → Prop
  | check {elapsed : Nat} {data : Bytes} {source : SocketAddr} {between : List Store}
      (stun : classifyPacket data = .stun) (valid : validateBindingRequest P.hmacSha1 data pwd = .ok ())
      (unknown : r.endpoint leg = none) :
      Learns r leg pwd (.datagram leg elapsed data source between) source
  | handshake {elapsed : Nat} {data : Bytes} {source : SocketAddr} {between : List Store}
      (dtls : classifyPacket data = .dtls) (unknown : r.endpoint leg = none) :
      Learns r leg pwd (.datagram leg elapsed data source between) source
  | media {elapsed : Nat} {data : Bytes} {source : SocketAddr} {between : List Store}
      (rtp : classifyPacket data = .rtp) (shape : looksLikeRtp data = true)
      (taken : cfg.endpointPolicy.applies
        (verdict cfg { r with nowMs := r.nowMs + elapsed } leg data source) = true) :
      Learns r leg pwd (.datagram leg elapsed data source between) source
  | beside {l : Leg} {elapsed : Nat} {data : Bytes} {source addr : SocketAddr} {between : List Store}
      (stored : .endpoint leg addr ∈ between) : Learns r leg pwd (.datagram l elapsed data source between) addr
  | stored {addr : SocketAddr} : Learns r leg pwd (.store (.endpoint leg addr)) addr

/-- An endpoint that changes was learned. -/
def ChangesByLearning (r : Relay γ) (e : Event) : Prop :=
  ∀ leg pwd, cfg.webrtcMode leg = true → cfg.icePwdLocal leg = some pwd →
    (next cfg P r e).endpoint leg ≠ r.endpoint leg →
    ∃ addr, (next cfg P r e).endpoint leg = some addr ∧ Learns cfg P r leg pwd e addr

/-- An endpoint that changes does so on a check under the password, or on a
packet that the context of the leg accepts. -/
def ChangesByAuthenticated (r : Relay γ) (e : Event) : Prop :=
  ∀ leg pwd, cfg.webrtcMode leg = true → cfg.icePwdLocal leg = some pwd →
    (next cfg P r e).endpoint leg ≠ r.endpoint leg →
    ∃ elapsed data source between, e = .datagram leg elapsed data source between ∧
      (validateBindingRequest P.hmacSha1 data pwd = .ok () ∨
        ∃ ctx plain, r.srtp (recvSlot cfg leg) = some ctx ∧ (decryptSrtp P ctx data).1 = .ok plain)

end

section Runs

variable {γ : Type} {cfg : RtpSession γ} {P : Primitives} {r : Relay γ} {leg l : Leg} {data : Bytes}
  {source : SocketAddr} {pwd : List Char} {elapsed : Nat} {between : List Store}

theorem validates_of_not_refused (hpwd : cfg.icePwdLocal leg = some pwd)
    (h : refusedCheck cfg P leg data = false) : validateBindingRequest P.hmacSha1 data pwd = .ok () := by
  rw [refusedCheck, hpwd, Option.any_some] at h
  cases hvalid : validateBindingRequest P.hmacSha1 data pwd with
  | ok u => rfl
  | error e => simp [hvalid] at h

/-- On the leg that it came in on, a datagram is a check, a handshake or media. -/
theorem learns_settled (hweb : cfg.webrtcMode l = true) (hpwd : cfg.icePwdLocal l = some pwd)
    (h : (settled cfg P { r with nowMs := r.nowMs + elapsed } leg data source).endpoint l ≠ r.endpoint l) :
    (settled cfg P { r with nowMs := r.nowMs + elapsed } leg data source).endpoint l = some source ∧
      Learns cfg P r l pwd (.datagram leg elapsed data source between) source := by
  obtain rfl := leg_of_settled h
  have hfirst (h : (learnFirst { r with nowMs := r.nowMs + elapsed } l source).endpoint l ≠ r.endpoint l) :=
    endpoint_learnFirst (r := { r with nowMs := r.nowMs + elapsed }) h
  unfold settled at h ⊢
  rw [if_pos hweb] at h ⊢
  cases hclass : classifyPacket data with
  | stun =>
      simp only [hclass] at h ⊢
      cases hrefused : refusedCheck cfg P l data with
      | true => simp [hrefused] at h
      | false =>
          simp only [hrefused, Bool.false_eq_true, if_false] at h ⊢
          obtain ⟨-, hunknown, hsource⟩ := hfirst h
          exact ⟨hsource, .check hclass (validates_of_not_refused hpwd hrefused) hunknown⟩
  | dtls =>
      simp only [hclass] at h ⊢
      obtain ⟨-, hunknown, hsource⟩ := hfirst h
      exact ⟨hsource, .handshake hclass hunknown⟩
  | rtp =>
      simp only [hclass] at h ⊢
      split at h
      next => exact absurd rfl h
      next hjunk =>
        rw [if_neg hjunk]
        obtain ⟨-, htaken, hsource⟩ := endpoint_learn h
        exact ⟨hsource, .media hclass (looksLikeRtp_of_media hclass hjunk) htaken⟩
  | rtcp | unknown => exact absurd (by simp [hclass]) h

theorem changes_by_learning (e : Event) : ChangesByLearning cfg P r e := by
  intro leg pwd hweb hpwd hchanged
  cases e with
  | datagram l elapsed data source between =>
      obtain ⟨r₁, hdecrypted, hrest⟩ :=
        advances_onDatagram cfg P { r with nowMs := r.nowMs + elapsed } l data source between
      have hend : (next cfg P r (.datagram l elapsed data source between)).endpoint leg =
          (between.foldl Relay.store r₁).endpoint leg := congrFun hrest.endpoint leg
      rw [hend] at hchanged ⊢
      rcases endpoint_stores (r := r₁) (l := leg) between with hkept | ⟨addr, hmem, haddr⟩
      · rw [hkept, hdecrypted.endpoint] at hchanged ⊢
        exact ⟨source, learns_settled hweb hpwd hchanged⟩
      · exact ⟨addr, haddr, .beside hmem⟩
  | rtcp l elapsed data source => exact absurd rfl hchanged
  | store s =>
      obtain hkept | ⟨addr, hmem, haddr⟩ := endpoint_stores (r := r) (l := leg) [s]
      · exact absurd hkept hchanged
      · obtain rfl := List.mem_singleton.mp hmem
        exact ⟨addr, haddr, .stored⟩

/-- In every run, an endpoint of a WebRTC leg that changes was learned: from a
check under the password or a handshake while none was known, from media that the
policy takes, or from the session's own description. -/
theorem webrtc_endpoint_learned (cfg : RtpSession γ) (P : Primitives) (r : Relay γ) (events : List Event) :
    Throughout (next cfg P) (ChangesByLearning cfg P) r events :=
  throughout_always (I := fun _ => True) (fun _ _ _ => trivial) (fun _ e _ => changes_by_learning e) trivial

end Runs

/-- A WebRTC caller, in the mode that refuses foreign sources. -/
def webrtcCaller : RtpSession Unit where
  webrtcMode leg := leg = .a
  icePwdLocal leg := if leg = .a then some "theSbcIcePassword".toList else none
  dtmfPt _ := none
  transcoder _ := none
  endpointPolicy := ⟨.moves, 5000⟩
  signalled _ := none

def rtpShaped : Bytes := [0x80, 0, 0, 1, 0, 0, 0, 0, 0, 0, 0, 7]

/-- Any source of an RTP-shaped datagram is latched before it is decrypted. -/
theorem stranger_latched :
    ¬Throughout (next webrtcCaller echoPrimitives) (ChangesByAuthenticated webrtcCaller echoPrimitives)
      (.new (fun _ => none) ()) [.datagram .a 20 rtpShaped (ofOctets 203 0 113 9 6004) []] := by
  rintro ⟨hauthenticated, -⟩
  obtain ⟨elapsed, data, source, between, he, hvalid⟩ :=
    hauthenticated .a "theSbcIcePassword".toList rfl rfl (by decide)
  cases he
  rcases hvalid with hvalid | ⟨ctx, plain, hctx, -⟩
  · exact absurd hvalid (by decide)
  · cases hctx

end NixiSbc.WebRtcEndpoints
