import NixiSbc.SrtpKeys
import NixiSbc.StateRuns
import Mathlib.Data.List.Nodup

namespace NixiSbc.Srtcp

open ByteWords Diagnostics SrtpKeys StateRuns

/-- A control-channel context: the keys and one index for all its SSRCs. -/
structure SrtcpCrypto where
  keys : SessionKeys
  srtcpIndex : UInt32

def new (cipherKey authKey saltKey : Bytes) (authTagLen : Nat) : Except Error SrtcpCrypto :=
  (checkKeys cipherKey authKey saltKey authTagLen).map fun K => ⟨K, 0⟩

def deriveRtcpIv (saltKey : Bytes) (ssrc srtcpIndex : UInt32) : Bytes :=
  xorInto
    (([0, 0, 0, 0] : Bytes) ++ beBytes 4 ssrc.toNat ++ beBytes 4 srtcpIndex.toNat ++ [0, 0, 0, 0])
    saltKey

def computeRtcpAuthTag (P : Primitives) (K : SessionKeys) (packet : Bytes) : Bytes :=
  truncatedTag P K packet

/-- Everything in front of the tag. The counter block is made from the whole
index, the trailer carries its low 31 bits under the E flag. -/
def sealedRtcp (P : Primitives) (K : SessionKeys) (rtcpPacket : Bytes) (ssrc index : UInt32) :
    Bytes :=
  let iv := deriveRtcpIv K.saltKey ssrc index
  let payload := rtcpPacket.drop 8
  let encryptedPayload :=
    if K.cipherKey.length = 16 then applyKeystream (P.keystream (K.cipherKey.take 16) iv) payload
    else payload
  rtcpPacket.take 8 ++ encryptedPayload ++ beBytes 4 (0x80000000 ||| (index &&& 0x7FFFFFFF)).toNat

def encryptRtcp (P : Primitives) (c : SrtcpCrypto) (rtcpPacket : Bytes) :
    Except Error Bytes × SrtcpCrypto :=
  if rtcpPacket.length < 8 then (.error (.media "RTCP packet too short (min 8 bytes)"), c)
  else
    let ssrc := u32At rtcpPacket 4
    let index := c.srtcpIndex + 1
    let srtcp := sealedRtcp P c.keys rtcpPacket ssrc index
    (.ok (srtcp ++ computeRtcpAuthTag P c.keys srtcp), { c with srtcpIndex := index })

/-- Nothing in the context changes, so the result is all there is to return. -/
def decryptSrtcp (P : Primitives) (c : SrtcpCrypto) (srtcpPacket : Bytes) : Except Error Bytes :=
  if srtcpPacket.length < 8 + 4 + c.keys.authTagLen then .error (.media "SRTCP packet too short")
  else
    let packetLen := srtcpPacket.length - c.keys.authTagLen
    let packet := srtcpPacket.take packetLen
    let receivedTag := srtcpPacket.drop packetLen
    if constantTimeCompare (computeRtcpAuthTag P c.keys packet) receivedTag = false then
      .error (.media "SRTCP authentication failed")
    else
      let eAndIndex := u32At packet (packetLen - 4)
      let index := eAndIndex &&& 0x7FFFFFFF
      let rtcpHeader := packet.take 8
      let encryptedPayload := (packet.take (packetLen - 4)).drop 8
      if eAndIndex &&& 0x80000000 = 0 then .ok (rtcpHeader ++ encryptedPayload)
      else
        let ssrc := u32At rtcpHeader 4
        let iv := deriveRtcpIv c.keys.saltKey ssrc index
        .ok (rtcpHeader ++
          applyKeystream (P.keystream (c.keys.cipherKey.take 16) iv) encryptedPayload)

def encryptRtcpAll (P : Primitives) :
    SrtcpCrypto → List Bytes → List (Except Error Bytes) × SrtcpCrypto :=
  runAll (encryptRtcp P)

theorem deriveRtcpIv_injective (salt : Bytes) {s s' i i' : UInt32}
    (h : deriveRtcpIv salt s i = deriveRtcpIv salt s' i') : s = s' ∧ i = i' := by
  have hl := xorInto_injective salt h
  simp only [List.append_assoc, List.cons_append, List.nil_append, List.cons.injEq, true_and] at hl
  obtain ⟨hs, ht⟩ := List.append_inj hl (by simp)
  obtain ⟨hi, -⟩ := List.append_inj ht (by simp)
  exact ⟨UInt32.toNat_inj.mp (beBytes_inj s.toNat_lt s'.toNat_lt hs),
    UInt32.toNat_inj.mp (beBytes_inj i.toNat_lt i'.toNat_lt hi)⟩

/-- The E flag survives and the index comes back without its top bit. -/
theorem trailer_flag (index : UInt32) :
    (0x80000000 ||| (index &&& 0x7FFFFFFF)) &&& 0x80000000 ≠ 0 ∧
    (0x80000000 ||| (index &&& 0x7FFFFFFF)) &&& 0x7FFFFFFF = index &&& 0x7FFFFFFF := by
  constructor
  · intro h
    have hb := congrArg (fun x : UInt32 => x.toBitVec.getLsbD 31) h
    simp at hb
  · apply UInt32.toNat_inj.mp
    simp only [UInt32.toNat_and, UInt32.toNat_or]
    rw [Nat.and_or_distrib_right, Nat.and_assoc, Nat.and_self]
    exact Nat.zero_or _

theorem and_mask_eq_iff (index : UInt32) :
    index &&& 0x7FFFFFFF = index ↔ index.toNat < 2 ^ 31 := by
  rw [← UInt32.toNat_inj, UInt32.toNat_and]
  change index.toNat &&& (2 ^ 31 - 1) = _ ↔ _
  rw [Nat.and_two_pow_sub_one_eq_mod]
  omega

/-- What comes back for a sealed packet: the receiver's keystream is that of
the index without its top bit. -/
theorem decryptSrtcp_sealedRtcp (P : Primitives) {d : SrtcpCrypto} {p : Bytes} (hp : 8 ≤ p.length)
    (h16 : d.keys.cipherKey.length = 16) (index : UInt32) :
    decryptSrtcp P d (sealedRtcp P d.keys p (u32At p 4) index ++
        computeRtcpAuthTag P d.keys (sealedRtcp P d.keys p (u32At p 4) index)) =
      .ok (p.take 8 ++ applyKeystream
        (P.keystream (d.keys.cipherKey.take 16)
          (deriveRtcpIv d.keys.saltKey (u32At p 4) (index &&& 0x7FFFFFFF)))
        (applyKeystream
          (P.keystream (d.keys.cipherKey.take 16) (deriveRtcpIv d.keys.saltKey (u32At p 4) index))
          (p.drop 8))) := by
  have hhead : (p.take 8).length = 8 := List.length_take_of_le hp
  have hssrc : u32At (p.take 8) 4 = u32At p 4 := by
    conv_rhs => rw [← List.take_append_drop 8 p]
    rw [u32At_append_left _ (by omega)]
  obtain ⟨hflag, hindex⟩ := trailer_flag index
  generalize henc : applyKeystream (P.keystream (d.keys.cipherKey.take 16)
    (deriveRtcpIv d.keys.saltKey (u32At p 4) index)) (p.drop 8) = encrypted
  have hbody : sealedRtcp P d.keys p (u32At p 4) index =
      p.take 8 ++ encrypted ++ beBytes 4 (0x80000000 ||| (index &&& 0x7FFFFFFF)).toNat := by
    rw [sealedRtcp, if_pos h16, henc]
  have htrail : u32At (sealedRtcp P d.keys p (u32At p 4) index) (p.take 8 ++ encrypted).length =
      0x80000000 ||| (index &&& 0x7FFFFFFF) := by
    have hr := u32At_append_right (p.take 8 ++ encrypted)
      (beBytes 4 (0x80000000 ||| (index &&& 0x7FFFFFFF)).toNat ++ []) 0
    rw [u32At_beBytes, List.append_nil, Nat.add_zero, ← hbody] at hr
    exact hr
  have hlen : (sealedRtcp P d.keys p (u32At p 4) index).length = (p.take 8 ++ encrypted).length + 4 := by
    rw [hbody, List.length_append, beBytes_length]
  have hfront : (sealedRtcp P d.keys p (u32At p 4) index).take (p.take 8 ++ encrypted).length =
      p.take 8 ++ encrypted := by
    rw [hbody, List.take_left]
  have htake8 : (sealedRtcp P d.keys p (u32At p 4) index).take 8 = p.take 8 := by
    rw [hbody, List.append_assoc]
    exact List.take_left' hhead
  generalize sealedRtcp P d.keys p (u32At p 4) index = body at htrail hlen hfront htake8 ⊢
  have htag : (computeRtcpAuthTag P d.keys body).length = d.keys.authTagLen := truncatedTag_length _ _ _
  have hcut : (body ++ computeRtcpAuthTag P d.keys body).length - d.keys.authTagLen = body.length := by
    rw [List.length_append, htag, Nat.add_sub_cancel]
  have hmin : ¬ (body ++ computeRtcpAuthTag P d.keys body).length < 8 + 4 + d.keys.authTagLen := by
    rw [List.length_append, htag, hlen, List.length_append]
    omega
  have hpayload : (p.take 8 ++ encrypted).drop 8 = encrypted := List.drop_left' hhead
  rw [decryptSrtcp, if_neg hmin, hcut]
  dsimp only
  rw [List.take_left, List.drop_left]
  simp only [constantTimeCompare_eq, decide_true, Bool.true_eq_false, if_false, hlen,
    Nat.add_sub_cancel, htrail, hfront, htake8, hpayload, hflag, hindex, hssrc]

def accepted (ps : List Bytes) : List Bytes := ps.filter (8 ≤ ·.length)

/-- The SSRC and index that each successful call of a run derives its counter
block from. -/
def ivInputs (P : Primitives) : SrtcpCrypto → List Bytes → List (UInt32 × UInt32)
  | _, [] => []
  | c, p :: ps =>
      if p.length < 8 then ivInputs P (encryptRtcp P c p).2 ps
      else (u32At p 4, c.srtcpIndex + 1) :: ivInputs P (encryptRtcp P c p).2 ps

theorem encryptRtcpAll_index (P : Primitives) (c : SrtcpCrypto) (ps : List Bytes) :
    (encryptRtcpAll P c ps).2 =
      ⟨c.keys, c.srtcpIndex + UInt32.ofNat (accepted ps).length⟩ := by
  induction ps generalizing c with
  | nil => simp [encryptRtcpAll, runAll, accepted]
  | cons p ps ih =>
      change (encryptRtcpAll P (encryptRtcp P c p).2 ps).2 = _
      rw [ih, encryptRtcp, accepted, accepted]
      by_cases hp : p.length < 8
      · rw [if_pos hp, List.filter_cons_of_neg (by simpa using hp)]
      · rw [if_neg hp, List.filter_cons_of_pos (by simpa using hp), List.length_cons,
          Nat.add_comm, UInt32.ofNat_add, ← UInt32.add_assoc]
        rfl

theorem ivInputs_eq (P : Primitives) (c : SrtcpCrypto) (ps : List Bytes) :
    ivInputs P c ps = (accepted ps).mapIdx fun m p =>
      (u32At p 4, c.srtcpIndex + UInt32.ofNat (m + 1)) := by
  induction ps generalizing c with
  | nil => rfl
  | cons p ps ih =>
      rw [ivInputs, ih, encryptRtcp, accepted, accepted]
      by_cases hp : p.length < 8
      · rw [if_pos hp, if_pos hp, List.filter_cons_of_neg (by simpa using hp)]
      · rw [if_neg hp, if_neg hp, List.filter_cons_of_pos (by simpa using hp), List.mapIdx_cons]
        congr 2
        funext m q
        have hnext : c.srtcpIndex + 1 + UInt32.ofNat (m + 1) =
            c.srtcpIndex + UInt32.ofNat (m + 1 + 1) := by
          rw [UInt32.ofNat_add (m + 1) 1, UInt32.add_assoc, UInt32.add_comm 1]
          rfl
        exact congrArg _ hnext

def markPrimitives (iv : Bytes) : Primitives where
  keystream _ iv' _ := if iv' = iv then 1 else 0
  hmacSha1 _ _ := Vector.replicate 20 0

theorem sealedRtcp_round_trip_iff {K : SessionKeys} (h16 : K.cipherKey.length = 16) {p : Bytes}
    (hp : 8 ≤ p.length) (index : UInt32) :
    (∀ P d, d.keys = K → decryptSrtcp P d (sealedRtcp P K p (u32At p 4) index ++
      computeRtcpAuthTag P K (sealedRtcp P K p (u32At p 4) index)) = .ok p) ↔
    (8 < p.length → index.toNat < 2 ^ 31) := by
  rw [← and_mask_eq_iff]
  constructor
  · intro hall hpayload
    by_contra hmask
    have hiv : deriveRtcpIv K.saltKey (u32At p 4) (index &&& 0x7FFFFFFF) ≠
        deriveRtcpIv K.saltKey (u32At p 4) index := fun he => hmask (deriveRtcpIv_injective _ he).2
    have hdec := hall (markPrimitives (deriveRtcpIv K.saltKey (u32At p 4) index)) ⟨K, 0⟩ rfl
    rw [decryptSrtcp_sealedRtcp _ (d := ⟨K, 0⟩) hp h16 index, Except.ok.injEq] at hdec
    simp only [markPrimitives, hiv, if_true, if_false, applyKeystream_zero] at hdec
    have hdrop : p.drop 8 ≠ [] := by
      rw [ne_eq, List.drop_eq_nil_iff]
      omega
    have hsplit : p = p.take 8 ++ p.drop 8 := (List.take_append_drop 8 p).symm
    exact applyKeystream_one_ne hdrop (List.append_cancel_left (hdec.trans hsplit))
  · rintro hcond P d rfl
    rw [decryptSrtcp_sealedRtcp P hp h16 index]
    by_cases hpayload : 8 < p.length
    · rw [hcond hpayload, applyKeystream_self, List.take_append_drop]
    · have hdrop : p.drop 8 = [] := List.drop_eq_nil_of_le (by omega)
      rw [List.take_of_length_le (by omega), hdrop]
      exact congrArg _ (List.append_nil p)

theorem encryptRtcpAll_getElem? (P : Primitives) (K : SessionKeys) {ps : List Bytes} {k : Nat}
    {p : Bytes} (hget : ps[k]? = some p) (hp : 8 ≤ p.length) :
    (encryptRtcpAll P ⟨K, 0⟩ ps).1[k]? =
      let srtcp := sealedRtcp P K p (u32At p 4) (UInt32.ofNat ((accepted (ps.take k)).length + 1))
      some (.ok (srtcp ++ computeRtcpAuthTag P K srtcp)) := by
  have hstate := encryptRtcpAll_index P ⟨K, 0⟩ (ps.take k)
  rw [encryptRtcpAll] at hstate ⊢
  rw [runAll_getElem?, hget, hstate, Option.map_some, encryptRtcp, if_neg (by omega)]
  have hindex : (0 : UInt32) + UInt32.ofNat (accepted (ps.take k)).length + 1 =
      UInt32.ofNat ((accepted (ps.take k)).length + 1) := by
    rw [UInt32.zero_add, UInt32.ofNat_add]
    rfl
  rw [hindex]

theorem ivInputs_nodup_iff (P : Primitives) (K : SessionKeys) (ps : List Bytes) :
    (ivInputs P ⟨K, 0⟩ ps).Nodup ↔
      ∀ (m m' : Nat) (p p' : Bytes), m < m' → (accepted ps)[m]? = some p → (accepted ps)[m']? = some p' →
        u32At p 4 = u32At p' 4 → (m' - m) % 2 ^ 32 ≠ 0 := by
  have hindex (m m' : Nat) : (0 : UInt32) + UInt32.ofNat (m + 1) = 0 + UInt32.ofNat (m' + 1) ↔
      (m + 1) % 2 ^ 32 = (m' + 1) % 2 ^ 32 := by
    rw [UInt32.zero_add, UInt32.zero_add, ← UInt32.toNat_inj, UInt32.toNat_ofNat', UInt32.toNat_ofNat']
  rw [ivInputs_eq, List.nodup_iff_getElem?_ne_getElem?]
  simp only [List.getElem?_mapIdx, List.length_mapIdx]
  constructor
  · intro h m m' p p' hlt hm hm' hssrc hdiff
    have hne := h m m' hlt (List.getElem?_eq_some_iff.mp hm').1
    rw [hm, hm', Option.map_some, Option.map_some, hssrc] at hne
    apply hne
    rw [(hindex m m').mpr (by omega)]
  · intro h m m' hlt hlen he
    have hm := List.getElem?_eq_getElem (hlt.trans hlen)
    have hm' := List.getElem?_eq_getElem hlen
    rw [hm, hm', Option.map_some, Option.map_some, Option.some.injEq, Prod.mk.injEq, hindex] at he
    exact h m m' _ _ hlt hm hm' he.1 (by omega)

theorem new_eq {ck ak sk : Bytes} {tl : Nat} {c : SrtcpCrypto} (h : new ck ak sk tl = .ok c) :
    ∃ K : SessionKeys, c = ⟨K, 0⟩ ∧ K.cipherKey = ck := by
  rw [new] at h
  cases hk : checkKeys ck ak sk tl with
  | error e => simp [hk, Except.map] at h
  | ok K =>
      simp only [hk, Except.map, Except.ok.injEq] at h
      exact ⟨K, h.symm, (checkKeys_ok hk).1⟩

/-- A run of `encryptRtcp` calls round-trips, for every keystream and every tag
function, and never repeats a counter block exactly while no call with a
payload comes in the upper half of the 32-bit index, and no SSRC comes back a
multiple of `2 ^ 32` calls later. -/
theorem srtcp_run_iff {ck ak sk : Bytes} {tl : Nat} {c : SrtcpCrypto}
    (hnew : new ck ak sk tl = .ok c) (h16 : ck.length = 16) (ps : List Bytes) :
    (∀ P, (∀ (k : Nat) (p : Bytes), ps[k]? = some p → 8 ≤ p.length →
        ∃ out : Bytes, (encryptRtcpAll P c ps).1[k]? = some (.ok out) ∧
          ∀ d : SrtcpCrypto, d.keys = c.keys → decryptSrtcp P d out = .ok p) ∧
      (ivInputs P c ps).Nodup) ↔
    (∀ (k : Nat) (p : Bytes), ps[k]? = some p → 8 < p.length →
      ((accepted (ps.take k)).length + 1) % 2 ^ 32 < 2 ^ 31) ∧
    (∀ (m m' : Nat) (p p' : Bytes), m < m' → (accepted ps)[m]? = some p → (accepted ps)[m']? = some p' →
      u32At p 4 = u32At p' 4 → (m' - m) % 2 ^ 32 ≠ 0) := by
  obtain ⟨K, rfl, rfl⟩ := new_eq hnew
  constructor
  · intro hall
    refine ⟨fun k p hget hpayload => ?_, (ivInputs_nodup_iff (markPrimitives []) K ps).mp (hall _).2⟩
    rw [← UInt32.toNat_ofNat']
    refine (sealedRtcp_round_trip_iff h16 hpayload.le _).mp (fun P d hd => ?_) hpayload
    obtain ⟨out, hout, hdec⟩ := (hall P).1 k p hget hpayload.le
    rw [encryptRtcpAll_getElem? P K hget hpayload.le, Option.some.injEq, Except.ok.injEq] at hout
    rw [hout]
    exact hdec d hd
  · rintro ⟨hlow, hfresh⟩ P
    refine ⟨fun k p hget hp => ?_, (ivInputs_nodup_iff P K ps).mpr hfresh⟩
    refine ⟨_, encryptRtcpAll_getElem? P K hget hp, ?_⟩
    refine (sealedRtcp_round_trip_iff h16 hp _).mpr (fun hpayload => ?_) P
    rw [UInt32.toNat_ofNat']
    exact hlow k p hget hpayload

theorem accepted_short {ps : List Bytes} (h : (accepted ps).length < 2 ^ 31) :
    (∀ (k : Nat) (p : Bytes), ps[k]? = some p → 8 < p.length →
      ((accepted (ps.take k)).length + 1) % 2 ^ 32 < 2 ^ 31) ∧
    (∀ (m m' : Nat) (p p' : Bytes), m < m' → (accepted ps)[m]? = some p →
      (accepted ps)[m']? = some p' → u32At p 4 = u32At p' 4 → (m' - m) % 2 ^ 32 ≠ 0) := by
  constructor
  · intro k p hget hp
    have hsplit : accepted ps = accepted (ps.take k) ++ accepted (ps.drop k) := by
      rw [accepted, accepted, accepted, ← List.filter_append, List.take_append_drop]
    have hmem : p ∈ accepted (ps.drop k) := by
      refine List.mem_filter.mpr ⟨List.mem_of_getElem? (i := 0) ?_, by simpa using hp.le⟩
      rw [List.getElem?_drop]
      exact hget
    have hpos := List.length_pos_of_mem hmem
    rw [hsplit, List.length_append] at h
    omega
  · intro m m' p p' hlt _ hm' _
    have hlen := (List.getElem?_eq_some_iff.mp hm').1
    omega

theorem new_self (K : SessionKeys) :
    new K.cipherKey K.authKey K.saltKey K.authTagLen = .ok ⟨K, 0⟩ := by
  rw [new, checkKeys_self]
  rfl

def rtcpSample (body : Bytes) : Bytes := [0x81, 201, 0, 1, 0, 0, 0, 7] ++ body

theorem srtcp_run_zeroKeys :
    new zeroKeys.cipherKey zeroKeys.authKey zeroKeys.saltKey zeroKeys.authTagLen =
      .ok ⟨zeroKeys, 0⟩ ∧
    ∀ P, (∀ (k : Nat) (p : Bytes),
        [rtcpSample [1, 2], rtcpSample [], rtcpSample [1, 2]][k]? = some p → 8 ≤ p.length →
        ∃ out : Bytes, (encryptRtcpAll P ⟨zeroKeys, 0⟩
            [rtcpSample [1, 2], rtcpSample [], rtcpSample [1, 2]]).1[k]? = some (.ok out) ∧
          ∀ d : SrtcpCrypto, d.keys = zeroKeys → decryptSrtcp P d out = .ok p) ∧
      (ivInputs P ⟨zeroKeys, 0⟩ [rtcpSample [1, 2], rtcpSample [], rtcpSample [1, 2]]).Nodup :=
  ⟨new_self zeroKeys, (srtcp_run_iff (new_self zeroKeys) rfl _).mpr (accepted_short (by decide))⟩

/-- The call after `2 ^ 31 - 1` successful ones: the trailer says index zero,
the keystream was that of index `2 ^ 31`. -/
theorem srtcp_round_trip_fails_at_half :
    ∃ out, (encryptRtcp echoPrimitives (encryptRtcpAll echoPrimitives ⟨zeroKeys, 0⟩
        (List.replicate (2 ^ 31 - 1) (rtcpSample []))).2 (rtcpSample (List.replicate 12 5))).1 =
        .ok out ∧
      decryptSrtcp echoPrimitives ⟨zeroKeys, 0⟩ out ≠ .ok (rtcpSample (List.replicate 12 5)) := by
  have hcount : (accepted (List.replicate (2 ^ 31 - 1) (rtcpSample []))).length = 2 ^ 31 - 1 := by
    rw [accepted, List.filter_replicate_of_pos (by decide), List.length_replicate]
  rw [encryptRtcpAll_index, hcount]
  exact ⟨_, rfl, by decide⟩

end NixiSbc.Srtcp
