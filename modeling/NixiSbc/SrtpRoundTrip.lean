import NixiSbc.SrtpKeystream
import NixiSbc.SrtpPacket

namespace NixiSbc.SrtpRoundTrip

open ByteWords Diagnostics SrtpKeys SrtpStream SrtpContext SrtpKeystream SrtpPacket

theorem fresh_streamMut (clock : UInt64) (ssrc : UInt32) :
    streamMut ∅ clock ssrc =
      (some ({ lastUsed := clock + 1 }, AList.insert ssrc { lastUsed := clock + 1 } ∅), clock + 1) :=
  rfl

theorem fresh_sendRoc (K : SessionKeys) (ssrc : UInt32) (seq : UInt16) :
    (sendRoc (fresh K) ssrc seq).1 = .ok 0 ∧ (sendRoc (fresh K) ssrc seq).2.keys = K := by
  rw [sendRoc]
  exact ⟨rfl, rfl⟩

theorem fresh_probe (K : SessionKeys) (ssrc : UInt32) (seq : UInt16) :
    probe (fresh K) ssrc seq = .ok (seq.toUInt64, 0) := rfl

theorem fresh_encryptRtp (P : Primitives) (K : SessionKeys) (p : Bytes) :
    (encryptRtp P (fresh K) p).1 =
      if p.length < 12 then .error (.media "RTP packet too short")
      else (getRtpHeaderLength p).map fun h =>
        sealRtp P K (p.take h) (p.drop h) (u32At p 8) (u16At p 2) 0 := by
  rw [encryptRtp]
  split
  · rfl
  · cases getRtpHeaderLength p with
    | error e => rfl
    | ok h =>
        obtain ⟨hroc, hkeys⟩ := fresh_sendRoc K (u32At p 8) (u16At p 2)
        cases hs : sendRoc (fresh K) (u32At p 8) (u16At p 2) with
        | mk r c =>
            rw [hs] at hroc hkeys
            dsimp only at hroc hkeys
            subst hroc
            simp only [hs, hkeys, Except.map]

theorem fresh_decryptSrtp (P : Primitives) (K : SessionKeys) {p : Bytes} {h : Nat}
    (hp : getRtpHeaderLength p = .ok h) :
    (decryptSrtp P (fresh K) (sealRtp P K (p.take h) (p.drop h) (u32At p 8) (u16At p 2) 0)).1 =
      .ok (if K.cipherKey.length = 16 then p
        else p.take h ++ applyKeystream
          (P.keystream (K.cipherKey.take 16) (deriveIv K.saltKey (u32At p 8) (u16At p 2) 0))
          (p.drop h)) := by
  have hd := congrArg Prod.fst (decryptSrtp_sealRtp (P := P) (c := fresh K) hp
    (fresh_probe K (u32At p 8) (u16At p 2)) (fresh_streamMut 0 (u32At p 8)))
  rw [openRtp_sealedBody hp] at hd
  exact hd

def flipPrimitives : Primitives where
  keystream _ _ _ := 1
  hmacSha1 _ _ := Vector.replicate 20 0

/-- Decryption undoes encryption, for every keystream and every tag function,
exactly with a sixteen-byte cipher key or a packet that has no payload: with
thirty-two bytes only the receiving side applies the cipher. -/
theorem srtp_round_trip_iff {ck ak sk : Bytes} {tl : Nat} {c : SrtpCrypto}
    (hnew : new ck ak sk tl = .ok c) (p : Bytes) :
    (∀ (P : Primitives) (out : Bytes), (encryptRtp P c p).1 = .ok out →
      (decryptSrtp P c out).1 = .ok p) ↔
    ck.length = 16 ∨ ∀ h, getRtpHeaderLength p = .ok h → h = p.length := by
  obtain ⟨K, rfl, rfl⟩ := new_ok hnew
  constructor
  · intro hall
    by_cases hk : K.cipherKey.length = 16
    · exact .inl hk
    · right
      intro h hp
      obtain ⟨hle, h12, -, -, -⟩ := getRtpHeaderLength_ok hp
      by_contra hne
      have henc := fresh_encryptRtp flipPrimitives K p
      rw [if_neg (by omega), hp] at henc
      have hdec := hall flipPrimitives _ henc
      rw [fresh_decryptSrtp flipPrimitives K hp, if_neg hk, Except.ok.injEq] at hdec
      have hdrop : p.drop h ≠ [] := by
        rw [ne_eq, List.drop_eq_nil_iff]
        omega
      have hsplit : p = p.take h ++ p.drop h := (List.take_append_drop h p).symm
      exact applyKeystream_one_ne hdrop (List.append_cancel_left (hdec.trans hsplit))
  · intro hcond P out henc
    rw [fresh_encryptRtp] at henc
    split at henc
    · cases henc
    · cases hp : getRtpHeaderLength p with
      | error e => simp [hp, Except.map] at henc
      | ok h =>
          simp only [hp, Except.map, Except.ok.injEq] at henc
          subst henc
          rw [fresh_decryptSrtp P K hp]
          by_cases hk : K.cipherKey.length = 16
          · rw [if_pos hk]
          · have hh := (hcond.resolve_left hk) h hp
            rw [if_neg hk, hh, List.drop_length, List.take_length]
            simp [applyKeystream]

theorem srtp_round_trip_zeroKeys :
    new zeroKeys.cipherKey zeroKeys.authKey zeroKeys.saltKey zeroKeys.authTagLen =
      .ok (fresh zeroKeys) ∧
    ∀ (P : Primitives) (out : Bytes), (encryptRtp P (fresh zeroKeys) (rtpSample 0 1)).1 = .ok out →
      (decryptSrtp P (fresh zeroKeys) out).1 = .ok (rtpSample 0 1) :=
  ⟨new_fresh zeroKeys, (srtp_round_trip_iff (new_fresh zeroKeys) (rtpSample 0 1)).mpr (.inl rfl)⟩

def wideKeys : SessionKeys :=
  { zeroKeys with cipherKey := List.replicate 32 0, cipher_length := .inr rfl }

/-- With a thirty-two-byte key the packet goes out in the clear and comes back
changed. -/
theorem srtp_round_trip_fails_wideKeys :
    new wideKeys.cipherKey wideKeys.authKey wideKeys.saltKey wideKeys.authTagLen =
      .ok (fresh wideKeys) ∧
    ∃ out, (encryptRtp echoPrimitives (fresh wideKeys) (rtpSample 0 1)).1 = .ok out ∧
      out.take 14 = rtpSample 0 1 ∧
      (decryptSrtp echoPrimitives (fresh wideKeys) out).1 ≠ .ok (rtpSample 0 1) :=
  ⟨new_fresh wideKeys, _, rfl, by decide, by decide⟩

end NixiSbc.SrtpRoundTrip
