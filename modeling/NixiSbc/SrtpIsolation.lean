import NixiSbc.SrtpKeystream

namespace NixiSbc.SrtpIsolation

open ByteWords Diagnostics SrtpKeys SrtpStream SrtpContext SrtpKeystream

/-- The packet does not get past the tag check of this receiver: if it is long
enough and its index is plausible and new, then the tag computed over the
packet and the rollover counter of that index is not the one it carries. -/
def failsTag (P : Primitives) (c : SrtpCrypto) (srtpPacket : Bytes) : Bool :=
  if srtpPacket.length < 12 + c.keys.authTagLen then true
  else
    let packet := srtpPacket.take (srtpPacket.length - c.keys.authTagLen)
    match probe c (u32At packet 8) (u16At packet 2) with
    | .error _ => true
    | .ok (_, roc) =>
        computeAuthTag P c.keys packet roc ≠ srtpPacket.drop (srtpPacket.length - c.keys.authTagLen)

/-- Nothing of the context is touched before the tag has verified. -/
theorem decryptSrtp_of_failsTag {P : Primitives} {c : SrtpCrypto} {b : Bytes}
    (h : failsTag P c b = true) : ∃ e, decryptSrtp P c b = (.error e, c) := by
  unfold failsTag at h
  unfold decryptSrtp
  by_cases hlen : b.length < 12 + c.keys.authTagLen
  · rw [if_pos hlen]
    exact ⟨_, rfl⟩
  · rw [if_neg hlen] at h ⊢
    dsimp only at h ⊢
    generalize b.take (b.length - c.keys.authTagLen) = packet at h ⊢
    cases hp : probe c (u32At packet 8) (u16At packet 2) with
    | error e => exact ⟨e, rfl⟩
    | ok r =>
        obtain ⟨index, roc⟩ := r
        simp only [hp, decide_eq_true_eq] at h
        have hct : constantTimeCompare (computeAuthTag P c.keys packet roc)
            (b.drop (b.length - c.keys.authTagLen)) = false := by
          rw [constantTimeCompare_eq]
          exact decide_eq_false h
        simp only [hct, if_true]
        exact ⟨_, rfl⟩

inductive Arrival
  | genuine (srtpPacket : Bytes)
  | injected (bytes : Bytes)

def genuine : List Arrival → List Bytes
  | [] => []
  | .genuine b :: arrivals => b :: genuine arrivals
  | .injected _ :: arrivals => genuine arrivals

/-- Every arrival goes through `decryptSrtp`; the results kept are those of the
genuine packets. -/
def receive (P : Primitives) : SrtpCrypto → List Arrival → List (Except Error Bytes) × SrtpCrypto
  | c, [] => ([], c)
  | c, .genuine b :: arrivals =>
      let r := decryptSrtp P c b
      let t := receive P r.2 arrivals
      (r.1 :: t.1, t.2)
  | c, .injected b :: arrivals => receive P (decryptSrtp P c b).2 arrivals

/-- Every injected packet fails the tag check in the state it arrives in. -/
def injectedFail (P : Primitives) : SrtpCrypto → List Arrival → Bool
  | _, [] => true
  | c, .genuine b :: arrivals => injectedFail P (decryptSrtp P c b).2 arrivals
  | c, .injected b :: arrivals =>
      failsTag P c b && injectedFail P (decryptSrtp P c b).2 arrivals

/-- The run with the injected packets and the run without them give the same
results for the genuine packets and end in the same context. -/
theorem injected_packets_do_not_interfere (P : Primitives) (c : SrtpCrypto)
    (arrivals : List Arrival) (h : injectedFail P c arrivals = true) :
    receive P c arrivals = decryptAll P c (genuine arrivals) := by
  induction arrivals generalizing c with
  | nil => rfl
  | cons a arrivals ih =>
      cases a with
      | genuine b =>
          simp only [receive, genuine, decryptAll, StateRuns.runAll]
          rw [ih _ h, decryptAll]
      | injected b =>
          obtain ⟨htag, hrest⟩ := Bool.and_eq_true_iff.mp h
          obtain ⟨e, he⟩ := decryptSrtp_of_failsTag htag
          rw [he] at hrest
          simp only [receive, genuine, he]
          exact ih c hrest

def sealedSample (low : UInt8) : Bytes :=
  sealRtp echoPrimitives zeroKeys ((rtpSample 0 low).take 12) ((rtpSample 0 low).drop 12) 7
    low.toUInt16 0

/-- A spoofed SSRC and a spoofed packet of the stream around a genuine one. -/
def sampleArrivals : List Arrival :=
  [.injected (List.replicate 24 9), .genuine (sealedSample 1),
    .injected (rtpSample 0 2 ++ List.replicate 10 0)]

theorem injected_packets_around_one :
    injectedFail echoPrimitives (fresh zeroKeys) sampleArrivals = true ∧
    receive echoPrimitives (fresh zeroKeys) sampleArrivals =
      decryptAll echoPrimitives (fresh zeroKeys) (genuine sampleArrivals) ∧
    (receive echoPrimitives (fresh zeroKeys) sampleArrivals).1 = [.ok (rtpSample 0 1)] :=
  ⟨by decide, injected_packets_do_not_interfere _ _ _ (by decide), by decide⟩

end NixiSbc.SrtpIsolation
