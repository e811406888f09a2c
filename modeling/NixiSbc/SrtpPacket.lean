import NixiSbc.SrtpContext

namespace NixiSbc.SrtpPacket

open ByteWords Diagnostics SrtpKeys SrtpStream SrtpContext

theorem byteAt_of_take_eq {p q : Bytes} {h i : Nat} (he : q.take h = p.take h) (hi : i < h) :
    byteAt q i = byteAt p i := by
  have hg : (q.take h)[i]? = (p.take h)[i]? := by rw [he]
  rw [List.getElem?_take_of_lt hi, List.getElem?_take_of_lt hi] at hg
  exact byteAt_congr hg

theorem u16At_of_take_eq {p q : Bytes} {h i : Nat} (he : q.take h = p.take h) (hi : i + 1 < h) :
    u16At q i = u16At p i := by
  rw [u16At, u16At, byteAt_of_take_eq he (by omega), byteAt_of_take_eq he hi]

theorem u32At_of_take_eq {p q : Bytes} {h i : Nat} (he : q.take h = p.take h) (hi : i + 3 < h) :
    u32At q i = u32At p i := by
  rw [u32At, u32At, byteAt_of_take_eq he (by omega), byteAt_of_take_eq he (by omega),
    byteAt_of_take_eq he (by omega), byteAt_of_take_eq he hi]

/-- What a successful header scan has read: the fixed part, the CSRC list and
the extension all lie inside the header, and the header inside the packet. -/
theorem getRtpHeaderLength_ok {p : Bytes} {h : Nat} (hp : getRtpHeaderLength p = .ok h) :
    h ≤ p.length ∧ 12 ≤ p.length ∧ 12 + (byteAt p 0 &&& 0x0F).toNat * 4 ≤ h ∧
    (byteAt p 0 &&& 0x10 ≠ 0 → 12 + (byteAt p 0 &&& 0x0F).toNat * 4 + 4 ≤ h ∧
      h = 12 + (byteAt p 0 &&& 0x0F).toNat * 4 +
        (4 + (u16At p (12 + (byteAt p 0 &&& 0x0F).toNat * 4 + 2)).toNat * 4)) ∧
    (¬ byteAt p 0 &&& 0x10 ≠ 0 → h = 12 + (byteAt p 0 &&& 0x0F).toNat * 4) := by
  unfold getRtpHeaderLength at hp
  split at hp
  · cases hp
  · dsimp only at hp
    split at hp
    next hx =>
      split at hp
      · cases hp
      · split at hp
        · cases hp
        · cases hp
          exact ⟨by omega, by omega, by omega, fun _ => ⟨by omega, rfl⟩, fun hn => absurd hx hn⟩
    next hx =>
      split at hp
      · cases hp
      · cases hp
        exact ⟨by omega, by omega, le_rfl, fun hn => absurd hn hx, fun _ => rfl⟩

/-- The scan reads nothing behind the header it finds. -/
theorem getRtpHeaderLength_congr {p q : Bytes} {h : Nat} (hp : getRtpHeaderLength p = .ok h)
    (hlen : q.length = p.length) (htake : q.take h = p.take h) : getRtpHeaderLength q = .ok h := by
  obtain ⟨hle, h12, hbase, hext, hplain⟩ := getRtpHeaderLength_ok hp
  have h0 : byteAt q 0 = byteAt p 0 := byteAt_of_take_eq htake (by omega)
  rw [getRtpHeaderLength, if_neg (by omega), h0]
  dsimp only
  by_cases hx : byteAt p 0 &&& 0x10 ≠ 0
  · obtain ⟨hroom, hh⟩ := hext hx
    rw [if_pos hx, if_neg (by omega), u16At_of_take_eq htake (by omega), ← hh, if_neg (by omega)]
  · rw [if_neg hx, ← hplain hx, if_neg (by omega)]

def sealedBody (P : Primitives) (K : SessionKeys) (header payload : Bytes)
    (ssrc : UInt32) (seq : UInt16) (roc : UInt32) : Bytes :=
  header ++ if K.cipherKey.length = 16 then
      applyKeystream (P.keystream (K.cipherKey.take 16) (deriveIv K.saltKey ssrc seq roc)) payload
    else payload

theorem sealedBody_length (P : Primitives) (K : SessionKeys) (header payload : Bytes)
    (ssrc : UInt32) (seq : UInt16) (roc : UInt32) :
    (sealedBody P K header payload ssrc seq roc).length = header.length + payload.length := by
  rw [sealedBody, List.length_append]
  split
  · rw [applyKeystream_length]
  · rfl

variable {P : Primitives} {K : SessionKeys} {p : Bytes} {h : Nat}

section Sealed

variable (hp : getRtpHeaderLength p = .ok h) (ssrc : UInt32) (seq : UInt16) (roc : UInt32)
include hp

theorem sealedBody_packet_length :
    (sealedBody P K (p.take h) (p.drop h) ssrc seq roc).length = p.length := by
  have hle := (getRtpHeaderLength_ok hp).1
  rw [sealedBody_length, List.length_take, List.length_drop]
  omega

theorem sealedBody_take :
    (sealedBody P K (p.take h) (p.drop h) ssrc seq roc).take h = p.take h := by
  have hle := (getRtpHeaderLength_ok hp).1
  rw [sealedBody]
  exact List.take_left' (by rw [List.length_take]; omega)

theorem sealedBody_header :
    getRtpHeaderLength (sealedBody P K (p.take h) (p.drop h) ssrc seq roc) = .ok h :=
  getRtpHeaderLength_congr hp (sealedBody_packet_length hp ssrc seq roc)
    (sealedBody_take hp ssrc seq roc)

theorem sealedBody_fields :
    u32At (sealedBody P K (p.take h) (p.drop h) ssrc seq roc) 8 = u32At p 8 ∧
    u16At (sealedBody P K (p.take h) (p.drop h) ssrc seq roc) 2 = u16At p 2 := by
  obtain ⟨-, -, hbase, -, -⟩ := getRtpHeaderLength_ok hp
  have htake := sealedBody_take hp ssrc seq roc (P := P) (K := K)
  exact ⟨u32At_of_take_eq htake (by omega), u16At_of_take_eq htake (by omega)⟩

/-- Opening is the sender's cipher step run again, whether or not the sender
ran it. -/
theorem openRtp_sealedBody :
    openRtp P K (sealedBody P K (p.take h) (p.drop h) ssrc seq roc) h ssrc seq roc =
      if K.cipherKey.length = 16 then p
      else p.take h ++ applyKeystream
        (P.keystream (K.cipherKey.take 16) (deriveIv K.saltKey ssrc seq roc)) (p.drop h) := by
  have hle := (getRtpHeaderLength_ok hp).1
  have hdrop : (sealedBody P K (p.take h) (p.drop h) ssrc seq roc).drop h =
      if K.cipherKey.length = 16 then
        applyKeystream (P.keystream (K.cipherKey.take 16) (deriveIv K.saltKey ssrc seq roc)) (p.drop h)
      else p.drop h := by
    rw [sealedBody]
    exact List.drop_left' (by rw [List.length_take]; omega)
  rw [openRtp, sealedBody_take hp ssrc seq roc, hdrop]
  by_cases hk : K.cipherKey.length = 16
  · simp only [hk, if_true, applyKeystream_self, List.take_append_drop]
  · simp only [hk, if_false]

end Sealed

/-- The receiver cuts a sealed packet where the sender put the tag. -/
theorem sealRtp_split (hp : getRtpHeaderLength p = .ok h) (ssrc : UInt32) (seq : UInt16) (roc : UInt32) :
    let srtpPacket := sealRtp P K (p.take h) (p.drop h) ssrc seq roc
    let body := sealedBody P K (p.take h) (p.drop h) ssrc seq roc
    ¬ srtpPacket.length < 12 + K.authTagLen ∧
    srtpPacket.take (srtpPacket.length - K.authTagLen) = body ∧
    srtpPacket.drop (srtpPacket.length - K.authTagLen) = computeAuthTag P K body roc := by
  intro srtpPacket body
  obtain ⟨-, h12, -, -, -⟩ := getRtpHeaderLength_ok hp
  have hbody : body.length = p.length := sealedBody_packet_length hp ssrc seq roc
  have htag : (computeAuthTag P K body roc).length = K.authTagLen := truncatedTag_length _ _ _
  have hlen : srtpPacket.length = body.length + K.authTagLen := by
    rw [← htag, ← List.length_append]
    rfl
  have hcut : srtpPacket.length - K.authTagLen = body.length := by omega
  rw [hcut]
  exact ⟨by omega, List.take_left, List.drop_left⟩

/-- What a receiver with the same keys does with a sealed packet, once its own
index block yields the sender's rollover counter. -/
theorem decryptSrtp_sealRtp {c : SrtpCrypto} {index : UInt64} {roc : UInt32} {state : StreamState}
    {recv : StreamTable} {clock : UInt64} (hp : getRtpHeaderLength p = .ok h)
    (hprobe : probe c (u32At p 8) (u16At p 2) = .ok (index, roc))
    (hmut : streamMut c.recv c.clock (u32At p 8) = (some (state, recv), clock)) :
    decryptSrtp P c (sealRtp P c.keys (p.take h) (p.drop h) (u32At p 8) (u16At p 2) roc) =
      (.ok (openRtp P c.keys
          (sealedBody P c.keys (p.take h) (p.drop h) (u32At p 8) (u16At p 2) roc)
          h (u32At p 8) (u16At p 2) roc),
        { c with
          recv := recv.insert (u32At p 8) (accept state index roc (u16At p 2))
          clock := clock }) := by
  obtain ⟨hlong, htake, hdrop⟩ := sealRtp_split hp (u32At p 8) (u16At p 2) roc (P := P) (K := c.keys)
  obtain ⟨hssrc, hseq⟩ := sealedBody_fields hp (u32At p 8) (u16At p 2) roc (P := P) (K := c.keys)
  have hhead := sealedBody_header hp (u32At p 8) (u16At p 2) roc (P := P) (K := c.keys)
  rw [decryptSrtp, if_neg hlong, htake, hdrop]
  simp only [hssrc, hseq, hprobe, constantTimeCompare_eq, decide_true, Bool.true_eq_false, if_false,
    hmut, hhead]

theorem decryptSrtp_sealRtp_error {c : SrtpCrypto} {e : Error} (hp : getRtpHeaderLength p = .ok h)
    (roc : UInt32) (hprobe : probe c (u32At p 8) (u16At p 2) = .error e) :
    decryptSrtp P c (sealRtp P c.keys (p.take h) (p.drop h) (u32At p 8) (u16At p 2) roc) =
      (.error e, c) := by
  obtain ⟨hlong, htake, -⟩ := sealRtp_split hp (u32At p 8) (u16At p 2) roc (P := P) (K := c.keys)
  obtain ⟨hssrc, hseq⟩ := sealedBody_fields hp (u32At p 8) (u16At p 2) roc (P := P) (K := c.keys)
  rw [decryptSrtp, if_neg hlong, htake]
  simp only [hssrc, hseq, hprobe]

end NixiSbc.SrtpPacket
