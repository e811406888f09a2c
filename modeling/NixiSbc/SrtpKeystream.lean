import NixiSbc.SrtpTable

namespace NixiSbc.SrtpKeystream

open ByteWords Diagnostics SrtpKeys SrtpStream SrtpContext SrtpTable

theorem indexByte_toNat (i k : UInt64) (hk : k.toNat < 64) :
    ((i >>> k) &&& 0xFF).toUInt8.toNat = i.toNat / 2 ^ k.toNat % 256 := by
  rw [UInt64.toNat_toUInt8, UInt64.toNat_and, UInt64.toNat_shiftRight, Nat.mod_eq_of_lt hk,
    Nat.shiftRight_eq_div_pow]
  change (_ &&& (2 ^ 8 - 1)) % 2 ^ 8 = _
  rw [Nat.and_two_pow_sub_one_eq_mod]
  omega

theorem packetIndex_lt (roc : UInt32) (seq : UInt16) : (packetIndex roc seq).toNat < 2 ^ (40 + 8) := by
  have hr := roc.toNat_lt
  have hq := seq.toNat_lt
  rw [packetIndex_toNat]
  omega

theorem eq_of_byte {n m k : Nat} (htop : n / 2 ^ (k + 8) = m / 2 ^ (k + 8))
    (hbyte : n / 2 ^ k % 256 = m / 2 ^ k % 256) : n / 2 ^ k = m / 2 ^ k := by
  rw [Nat.pow_add, ← Nat.div_div_eq_div_mul, ← Nat.div_div_eq_div_mul] at htop
  omega

/-- For one salt, the initial counter block determines the packet. -/
theorem deriveIv_injective (salt : Bytes) {s s' : UInt32} {q q' : UInt16} {r r' : UInt32}
    (h : deriveIv salt s q r = deriveIv salt s' q' r') : s = s' ∧ q = q' ∧ r = r' := by
  have hl := xorInto_injective salt h
  simp only [List.append_assoc, List.cons_append, List.nil_append, List.cons.injEq, true_and] at hl
  obtain ⟨hs, ht⟩ := List.append_inj hl (by simp)
  simp only [List.cons.injEq, and_true] at ht
  obtain ⟨h40, h32, h24, h16, h8, h0⟩ := ht
  have byte {i j k : UInt64} (hk : k.toNat < 64)
      (hb : ((i >>> k) &&& 0xFF).toUInt8 = ((j >>> k) &&& 0xFF).toUInt8) :
      i.toNat / 2 ^ k.toNat % 256 = j.toNat / 2 ^ k.toNat % 256 := by
    rw [← indexByte_toNat i k hk, hb, indexByte_toNat j k hk]
  have b40 := byte (by decide) h40
  have b32 := byte (by decide) h32
  have b24 := byte (by decide) h24
  have b16 := byte (by decide) h16
  have b8 := byte (by decide) h8
  have b0 := byte (k := 0) (by decide) (by simpa using h0)
  simp only [UInt64.reduceToNat] at b40 b32 b24 b16 b8 b0
  -- from the highest byte down, what is above each byte agrees
  have htop : (packetIndex r q).toNat / 2 ^ (40 + 8) = (packetIndex r' q').toNat / 2 ^ (40 + 8) := by
    rw [Nat.div_eq_of_lt (packetIndex_lt r q), Nat.div_eq_of_lt (packetIndex_lt r' q')]
  have h40 := eq_of_byte htop b40
  have h32 := eq_of_byte h40 b32
  have h24 := eq_of_byte h32 b24
  have h16 := eq_of_byte h24 b16
  have h8 := eq_of_byte h16 b8
  have hindex := eq_of_byte h8 b0
  rw [Nat.pow_zero, Nat.div_one, Nat.div_one, packetIndex_toNat, packetIndex_toNat] at hindex
  clear b40 b32 b24 b16 b8 b0 htop h40 h32 h24 h16 h8
  have hq := q.toNat_lt
  have hq' := q'.toNat_lt
  refine ⟨?_, ?_, ?_⟩
  · exact UInt32.toNat_inj.mp (beBytes_inj s.toNat_lt s'.toNat_lt hs)
  · exact UInt16.toNat_inj.mp (by omega)
  · exact UInt32.toNat_inj.mp (by omega)

/-- The sender's index block hands out a rollover counter only for an index
that its SSRC has not carried, and then remembers it. -/
theorem sendRoc_spec {c : SrtpCrypto} {S : UInt32 → Set Nat} (h : TableCarries c.send S)
    (ssrc : UInt32) (seq : UInt16) :
    (∃ e c', sendRoc c ssrc seq = (.error e, c') ∧ c'.keys = c.keys ∧ TableCarries c'.send S) ∨
    ∃ roc c', sendRoc c ssrc seq = (.ok roc, c') ∧ c'.keys = c.keys ∧
      (packetIndex roc seq).toNat ∉ S ssrc ∧
      TableCarries c'.send
        (Function.update S ssrc (insert (packetIndex roc seq).toNat (S ssrc))) := by
  rcases h.streamMut c.clock ssrc with hm | ⟨state, hstate, hm⟩
  · left
    rw [sendRoc, hm]
    exact ⟨_, _, rfl, rfl, h⟩
  · have hrem := (h.remembers ssrc).stamp (c.clock + 1)
    rw [← hstate] at hrem
    cases hest : estimate state seq with
    | none =>
        left
        have hcar : Carried state (S ssrc) := by
          rcases hrem with ⟨hs, -⟩ | hc
          · rw [estimate, if_pos hs] at hest
            cases hest
          · exact hc
        have ht := h.insert ssrc hcar
        rw [Function.update_eq_self] at ht
        rw [sendRoc, hm]
        simp only [hest]
        exact ⟨_, _, rfl, rfl, ht⟩
    | some p =>
        obtain ⟨index, roc⟩ := p
        by_cases hrep : isReplayed state index = true
        · left
          have hcar : Carried state (S ssrc) := by
            rcases hrem with ⟨hs, -⟩ | hc
            · rw [isReplayed, if_pos hs] at hrep
              cases hrep
            · exact hc
          have ht := h.insert ssrc hcar
          rw [Function.update_eq_self] at ht
          rw [sendRoc, hm]
          simp only [hest, hrep, if_true]
          exact ⟨_, _, rfl, rfl, ht⟩
        · right
          obtain ⟨hfresh, hcar⟩ := hrem.accept hest (Bool.not_eq_true _ ▸ hrep)
          have ht := h.insert ssrc hcar
          rw [estimate_index hest] at hfresh hcar ht hrep
          rw [sendRoc, hm]
          simp only [hest, estimate_index hest, hrep, AList.insert_insert]
          exact ⟨_, _, rfl, rfl, hfresh, ht⟩

/-- What selects the keystream of one packet. -/
structure PacketKey where
  ssrc : UInt32
  roc : UInt32
  seq : UInt16
  deriving DecidableEq

def PacketKey.iv (k : PacketKey) (saltKey : Bytes) : Bytes := deriveIv saltKey k.ssrc k.seq k.roc

/-- The key under which `encryptRtp` sealed its output, if it returned one. -/
def usedKey (P : Primitives) (c : SrtpCrypto) (rtpPacket : Bytes) : Option PacketKey :=
  match (encryptRtp P c rtpPacket).1, (sendRoc c (u32At rtpPacket 8) (u16At rtpPacket 2)).1 with
  | .ok _, .ok roc => some ⟨u32At rtpPacket 8, roc, u16At rtpPacket 2⟩
  | _, _ => none

/-- Every output is sealed under its own key, so the list of used keys misses
no successful call. -/
theorem usedKey_of_ok {P : Primitives} {c : SrtpCrypto} {rtpPacket out : Bytes}
    (h : (encryptRtp P c rtpPacket).1 = .ok out) :
    ∃ k headerLen, usedKey P c rtpPacket = some k ∧
      out = sealRtp P (encryptRtp P c rtpPacket).2.keys (rtpPacket.take headerLen)
        (rtpPacket.drop headerLen) k.ssrc k.seq k.roc := by
  have hu := h
  rw [encryptRtp] at h
  split at h
  · cases h
  next hlen =>
    cases hh : getRtpHeaderLength rtpPacket with
    | error e => simp [hh] at h
    | ok headerLen =>
        simp only [hh] at h
        cases hr : sendRoc c (u32At rtpPacket 8) (u16At rtpPacket 2) with
        | mk r c' =>
            cases r with
            | error e => simp [hr] at h
            | ok roc =>
                simp only [hr, Except.ok.injEq] at h
                refine ⟨⟨u32At rtpPacket 8, roc, u16At rtpPacket 2⟩, headerLen, ?_, ?_⟩
                · simp only [usedKey, hu, hr]
                · simp only [encryptRtp, if_neg hlen, hh, hr]
                  exact h.symm

/-- The calls that a context serves, in any order. -/
inductive Call
  | encrypt (rtpPacket : Bytes)
  | decrypt (srtpPacket : Bytes)

def step (P : Primitives) (c : SrtpCrypto) : Call → Option PacketKey × SrtpCrypto
  | .encrypt p => (usedKey P c p, (encryptRtp P c p).2)
  | .decrypt p => (none, (decryptSrtp P c p).2)

def run (P : Primitives) : SrtpCrypto → List Call → List PacketKey × SrtpCrypto
  | c, [] => ([], c)
  | c, call :: calls =>
      let r := step P c call
      let t := run P r.2 calls
      (r.1.toList ++ t.1, t.2)

theorem encryptRtp_error_or_sent {P : Primitives} {c : SrtpCrypto} (p : Bytes) :
    ((encryptRtp P c p).2 = c ∧ usedKey P c p = none) ∨
    (encryptRtp P c p).2 = (sendRoc c (u32At p 8) (u16At p 2)).2 ∧
      usedKey P c p = (sendRoc c (u32At p 8) (u16At p 2)).1.toOption.map
        fun roc => ⟨u32At p 8, roc, u16At p 2⟩ := by
  by_cases hlen : p.length < 12
  · left
    have he : encryptRtp P c p = (.error (.media "RTP packet too short"), c) := by
      rw [encryptRtp, if_pos hlen]
    exact ⟨by rw [he], by rw [usedKey, he]⟩
  · cases hh : getRtpHeaderLength p with
    | error e =>
        left
        have he : encryptRtp P c p = (.error e, c) := by
          simp only [encryptRtp, if_neg hlen, hh]
        exact ⟨by rw [he], by rw [usedKey, he]⟩
    | ok headerLen =>
        right
        cases hr : sendRoc c (u32At p 8) (u16At p 2) with
        | mk r c' => cases r <;> simp [usedKey, encryptRtp, hlen, hh, hr, Except.toOption]

theorem decryptSrtp_frame (P : Primitives) (c : SrtpCrypto) (p : Bytes) :
    (decryptSrtp P c p).2.send = c.send ∧ (decryptSrtp P c p).2.keys = c.keys := by
  rw [decryptSrtp]
  split
  · exact ⟨rfl, rfl⟩
  · dsimp only
    split
    · exact ⟨rfl, rfl⟩
    · split
      · exact ⟨rfl, rfl⟩
      · split
        · exact ⟨rfl, rfl⟩
        · split <;> exact ⟨rfl, rfl⟩

/-- One call: it leaves the carried indices alone, or adds the index of a key
that was not carried before. -/
theorem step_carries {P : Primitives} {c : SrtpCrypto} {S : UInt32 → Set Nat}
    (h : TableCarries c.send S) (call : Call) :
    (step P c call).2.keys = c.keys ∧
    ((step P c call).1 = none ∧ TableCarries (step P c call).2.send S ∨
    ∃ k, (step P c call).1 = some k ∧ (packetIndex k.roc k.seq).toNat ∉ S k.ssrc ∧
      TableCarries (step P c call).2.send
        (Function.update S k.ssrc (insert (packetIndex k.roc k.seq).toNat (S k.ssrc)))) := by
  cases call with
  | decrypt p =>
      obtain ⟨hsend, hkeys⟩ := decryptSrtp_frame P c p
      refine ⟨hkeys, .inl ⟨rfl, ?_⟩⟩
      simp only [step, hsend]
      exact h
  | encrypt p =>
      simp only [step]
      rcases encryptRtp_error_or_sent (P := P) (c := c) p with ⟨hc, hu⟩ | ⟨hc, hu⟩
      · rw [hc, hu]
        exact ⟨rfl, .inl ⟨rfl, h⟩⟩
      · rw [hc, hu]
        rcases sendRoc_spec h (u32At p 8) (u16At p 2) with
          ⟨e, c', hs, hk, ht⟩ | ⟨roc, c', hs, hk, hfresh, ht⟩
        · rw [hs]
          exact ⟨hk, .inl ⟨rfl, ht⟩⟩
        · rw [hs]
          exact ⟨hk, .inr ⟨_, rfl, hfresh, ht⟩⟩

theorem run_keys_fresh (P : Primitives) (calls : List Call) {c : SrtpCrypto}
    {S : UInt32 → Set Nat} (h : TableCarries c.send S) :
    (run P c calls).1.Nodup ∧
      ∀ k ∈ (run P c calls).1, (packetIndex k.roc k.seq).toNat ∉ S k.ssrc := by
  induction calls generalizing c S with
  | nil => exact ⟨List.nodup_nil, fun k hk => absurd hk List.not_mem_nil⟩
  | cons call calls ih =>
      rcases (step_carries (P := P) h call).2 with ⟨hnone, ht⟩ | ⟨k, hsome, hfresh, ht⟩
      · simpa only [run, hnone, Option.toList_none, List.nil_append] using ih ht
      · obtain ⟨hnodup, hkeys⟩ := ih ht
        simp only [run, hsome, Option.toList_some, List.singleton_append, List.nodup_cons,
          List.mem_cons, forall_eq_or_imp]
        refine ⟨⟨?_, hnodup⟩, hfresh, ?_⟩
        · intro hk
          have hno := hkeys k hk
          rw [Function.update_self] at hno
          exact hno (Set.mem_insert _ _)
        · intro k' hk' hin
          apply hkeys k' hk'
          by_cases hs : k'.ssrc = k.ssrc
          · rw [hs, Function.update_self]
            rw [hs] at hin
            exact Set.mem_insert_of_mem _ hin
          · rw [Function.update_of_ne hs]
            exact hin

theorem run_append (P : Primitives) (c : SrtpCrypto) (xs ys : List Call) :
    run P c (xs ++ ys) =
      ((run P c xs).1 ++ (run P (run P c xs).2 ys).1, (run P (run P c xs).2 ys).2) := by
  induction xs generalizing c with
  | nil => rfl
  | cons x xs ih => simp [run, ih, List.append_assoc]

theorem run_keys (P : Primitives) (calls : List Call) {c : SrtpCrypto}
    {S : UInt32 → Set Nat} (h : TableCarries c.send S) : (run P c calls).2.keys = c.keys := by
  induction calls generalizing c S with
  | nil => rfl
  | cons call calls ih =>
      obtain ⟨hk, ⟨-, ht⟩ | ⟨k, -, -, ht⟩⟩ := step_carries (P := P) h call
      · exact (ih ht).trans hk
      · exact (ih ht).trans hk

theorem new_ok {ck ak sk : Bytes} {tl : Nat} {c : SrtpCrypto} (h : new ck ak sk tl = .ok c) :
    ∃ K, c = fresh K ∧ K.cipherKey = ck := by
  rw [new] at h
  cases hk : checkKeys ck ak sk tl with
  | error e => simp [hk, Except.map] at h
  | ok K =>
      simp only [hk, Except.map, Except.ok.injEq] at h
      exact ⟨K, h.symm, (checkKeys_ok hk).1⟩

theorem new_fresh (K : SessionKeys) :
    new K.cipherKey K.authKey K.saltKey K.authTagLen = .ok (fresh K) := by
  rw [new, checkKeys_self]
  rfl

/-- No two packets of a context go out under one keystream: the keys of the
successful encryptions of any run are pairwise distinct, so are their initial
counter blocks, and every output is sealed under a key of that list. -/
theorem keystream_never_reused (P : Primitives) {ck ak sk : Bytes} {tl : Nat} {c : SrtpCrypto}
    (hnew : new ck ak sk tl = .ok c) (calls : List Call) :
    (run P c calls).1.Nodup ∧
    ((run P c calls).1.map (·.iv c.keys.saltKey)).Nodup ∧
    ∀ pre p post out, calls = pre ++ .encrypt p :: post →
      (encryptRtp P (run P c pre).2 p).1 = .ok out →
      ∃ k ∈ (run P c calls).1, ∃ headerLen,
        out = sealRtp P c.keys (p.take headerLen) (p.drop headerLen) k.ssrc k.seq k.roc := by
  have hcar : TableCarries c.send fun _ => ∅ := by
    obtain ⟨K, rfl, -⟩ := new_ok hnew
    exact empty_carries
  obtain ⟨hnodup, -⟩ := run_keys_fresh P calls hcar
  refine ⟨hnodup, hnodup.map ?_, ?_⟩
  · rintro ⟨s, r, q⟩ ⟨s', r', q'⟩ he
    obtain ⟨rfl, rfl, rfl⟩ := deriveIv_injective c.keys.saltKey he
    rfl
  · rintro pre p post out rfl hok
    obtain ⟨k, headerLen, hu, hout⟩ := usedKey_of_ok hok
    refine ⟨k, ?_, headerLen, ?_⟩
    · rw [run_append]
      simp [run, step, hu]
    · have hk := run_keys P (pre ++ [.encrypt p]) hcar
      rw [run_append] at hk
      rw [hout]
      exact congrArg (fun K => sealRtp P K _ _ _ _ _) hk

def rtpSample (seqHigh seqLow : UInt8) : Bytes :=
  [0x80, 8, seqHigh, seqLow, 0, 0, 0, 0, 0, 0, 0, 7, 0xAB, 0xCD]

theorem keystream_never_reused_at_wrap :
    (run echoPrimitives (fresh zeroKeys) [.encrypt (rtpSample 255 255), .encrypt (rtpSample 0 0),
      .encrypt (rtpSample 255 255)]).1 = [⟨7, 0, 65535⟩, ⟨7, 1, 0⟩] ∧
    (run echoPrimitives (fresh zeroKeys) [.encrypt (rtpSample 255 255), .encrypt (rtpSample 0 0),
      .encrypt (rtpSample 255 255)]).1.Nodup :=
  ⟨by decide, (keystream_never_reused echoPrimitives (new_fresh zeroKeys) _).1⟩

end NixiSbc.SrtpKeystream
